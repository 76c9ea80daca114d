import EspMesh.Proof.ConnectionRegister
import EspMesh.Proof.ForwardedCommand
import EspMesh.Proof.NodeRegistry

/-! # Strings taken from packets

A version goes from a registration into the registry and from there into `strlen`, a firmware
name from a command into `sprintf`; nothing on the way sees to a NUL. So the strings are
terminated exactly as long as the messages bring one.
-/

namespace EspMesh
set_option autoImplicit false
set_option maxRecDepth 20000
open ByteMem Mem OrderedMap StepRuns

/-! ## What a step handles -/

def IsRequest (cmd : BusCmd) (msg : List UInt8) : Prop :=
  msg.getD u8Type 0 = BusType.request.byte ∧ BusCmd.ofByte (msg.getD u8Cmd 0) = some cmd

instance (cmd : BusCmd) (msg : List UInt8) : Decidable (IsRequest cmd msg) :=
  inferInstanceAs (Decidable (_ ∧ _))

/-- What `mwifi_root_read` leaves in the slot: the packet, and behind it what lay there. -/
def slotRead (s : Sys) (pkt : MeshPacket) : List UInt8 :=
  (s.io.mem.store s.cur.pServerCmd pkt.data).load s.cur.pServerCmd childPacketLen

/-- A step that reads a packet of a business, with its message. -/
def businessRead (s : Sys) : SysEvent → Option (Mac × List UInt8)
  | .rootRead (some pkt) _ =>
    if s.root.pc = .reading ∧ pkt.type.upgrade = false ∧
        (slotRead s pkt).take packetHeaderLen = mwifiAddrBroadcast.val then
      some (pkt.src, slotRead s pkt)
    else none
  | _ => none

/-- The command for the root that waits in `ServerQueue`. -/
def queuedMessage (s : Sys) : Option (List UInt8) :=
  match s.w.serverQueue.receive s.root.sqmsg with
  | none => none
  | some (sqmsg, _) =>
    if (ServerqueueMsg.ofBytes sqmsg).bAddrValid then none
    else some (ServerqueueMsg.ofBytes sqmsg).tServerCmd.val

/-- The command the step takes from the server, out of the queue or over the mesh. -/
def serverMessage (s : Sys) (ev : SysEvent) : Option (List UInt8) :=
  match ev with
  | .rootTop e => if s.root.pc = .top ∧ serves e s = true then queuedMessage s else none
  | _ => (businessRead s ev).bind fun m => if m.1 = s.w.gSelfMac then some m.2 else none

def otaMallocOk : SysEvent → Bool
  | .rootTop e => e.cmd.ota.mallocOk
  | .rootRead _ e => e.ota.mallocOk
  | _ => false

/-- The firmware name of an OTA command that `root_do_ota` gets as far as copying. -/
def nameIn (mallocOk : Bool) (msg : List UInt8) : Option (Bytes 32) :=
  if IsRequest .ota msg ∧ mallocOk = true then some (field msg body 32) else none

def otaName (s : Sys) (ev : SysEvent) : Option (Bytes 32) :=
  (serverMessage s ev).bind (nameIn (otaMallocOk ev))

/-- The node whose NODE_REGISTER the step handles, and the version in it. -/
def nodeVersion (s : Sys) (ev : SysEvent) : Option (Mac × Bytes 16) :=
  (businessRead s ev).bind fun m =>
    if m.1 ≠ s.w.gSelfMac ∧ IsRequest .nodeRegister m.2 then
      some (m.1, field m.2 (body + u8VersionStr) 16)
    else none

/-- The version of the latest NODE_REGISTER of each node. -/
def noteVersion (latest : Mac → Bytes 16) (s : Sys) (ev : SysEvent) : Mac → Bytes 16 :=
  match nodeVersion s ev with
  | none => latest
  | some (mac, version) => Function.update latest mac version

/-- The step has `root_send_register` take the lengths of the versions. -/
def takesLengths (s : Sys) : SysEvent → Bool
  | .rootTop e => connects s e && e.register.sendRoot
  | _ => false

/-- Every string the step takes a length of or prints has a NUL in its field, and `url_ota` has
room for what is in it. -/
structure StringsTerminated (s : Sys) (ev : SysEvent) : Prop where
  versions : takesLengths s ev = true → ∀ n ∈ s.w.nodes, 0 ∈ n.version.val
  name : 0 ∈ (s.step ev).w.ota.gOtaFirmwareName.val
  url : (s.step ev).w.ota.urlOta.length < 128

/-- The latest registration of each node in the registry had a NUL in its version when the
lengths are taken, and every OTA command one in its name. -/
structure TerminatedSent (w : Sys × (Mac → Bytes 16)) (ev : SysEvent) : Prop where
  versions : takesLengths w.1 ev = true → ∀ n ∈ w.1.w.nodes, 0 ∈ (w.2 n.mac).val
  name : ∀ name, otaName w.1 ev = some name → 0 ∈ name.val

/-! ## What the parts of a step do to the registry and the name -/

def otaUrl (configServerIp : List UInt8) (name : Bytes 32) : List UInt8 :=
  "http://".toUTF8.toList ++ configServerIp ++ "/firmware_name/".toUTF8.toList ++ cstr name.val

/-- The name, if there is one, has been copied and printed. -/
def Named (ip : List UInt8) (o o' : OtaShared) : Option (Bytes 32) → Prop
  | none => o'.gOtaFirmwareName = o.gOtaFirmwareName ∧ o'.urlOta = o.urlOta
  | some name => o'.gOtaFirmwareName = name ∧ o'.urlOta = otaUrl ip name

theorem Named.refl (ip : List UInt8) (o : OtaShared) : Named ip o o none := ⟨rfl, rfl⟩

theorem rootDoOta_named (ip : List UInt8) (p : ℕ) (e : DoOtaEnv) (io : Io) (o : OtaShared) :
    Named ip o (rootDoOta ip p e io o).2
      (if e.mallocOk then some (io.mem.loadBytes (p + tNode + body) 32) else none) := by
  unfold rootDoOta
  split
  · next hno =>
    rw [if_neg (show ¬ e.mallocOk = true by simpa using hno)]
    exact Named.refl ip o
  · next hok =>
    rw [if_pos (show e.mallocOk = true by simpa using hok)]
    dsimp only
    split
    · exact ⟨rfl, rfl⟩
    · split <;> exact ⟨rfl, rfl⟩

theorem load_isRequest (m : Mem) (p : ℕ) (cmd : BusCmd) {n : ℕ} (hn : 8 ≤ n) :
    IsRequest cmd (m.load p n) ↔ m.byte (p + u8Type) = BusType.request.byte ∧
      BusCmd.ofByte (m.byte (p + u8Cmd)) = some cmd := by
  rw [IsRequest, load_getD _ _ _ _ (by simp; omega), load_getD _ _ _ _ (by simp; omega)]

theorem field_load (m : Mem) (p a n k : ℕ) (h : a + n ≤ k) :
    field (m.load p k) a n = m.loadBytes (p + a) n := by
  apply Subtype.ext
  rw [field_val _ _ _ (by rwa [load_length]), load_drop _ _ _ _ (by omega),
    load_take _ _ _ _ (by omega)]
  rfl

/-- A command keeps the registry and the server's address, and the name if it is none for an
upgrade. -/
theorem command_w (w : World) (p : ℕ) (e : CmdEnv) (io : Io) (n : ℕ) (hn : 40 ≤ n) :
    (doProcessDataFromTcpserOrRoot w p e io).2.nodes = w.nodes ∧
      (doProcessDataFromTcpserOrRoot w p e io).2.configServerIp = w.configServerIp ∧
      Named w.configServerIp w.ota (doProcessDataFromTcpserOrRoot w p e io).2.ota
        (nameIn e.ota.mallocOk (io.mem.load (p + tNode) n)) := by
  rw [nameIn, field_load _ _ _ _ _ (by simpa using hn)]
  simp only [load_isRequest _ _ _ (show 8 ≤ n by omega)]
  unfold doProcessDataFromTcpserOrRoot
  dsimp only
  by_cases hreq : io.mem.byte (p + tNode + u8Type) = BusType.request.byte
  · rw [if_pos hreq]
    cases hcmd : BusCmd.ofByte (io.mem.byte (p + tNode + u8Cmd)) with
    | none => simp [Named]
    | some cmd =>
      cases cmd with
      | ota =>
        refine ⟨rfl, rfl, ?_⟩
        simp only [hreq, true_and]
        exact rootDoOta_named w.configServerIp p e.ota io w.ota
      | _ => simp [Named]
  · simp only [hreq, false_and, if_false]
    exact ⟨trivial, trivial, Named.refl _ _⟩

theorem node_w (w : World) (which : Mac) (p : ℕ) (e : CmdEnv) (io : Io) (n : ℕ) (hn : 31 ≤ n) :
    (doProcessDataFromNode w which p e io).2 =
      if IsRequest .nodeRegister (io.mem.load (p + tNode) n) then
        { w with nodes := (addNewnodeToNodedevList e.mallocOk which
            (field (io.mem.load (p + tNode) n) (body + u8VersionStr) 16) w.nodes).1 }
      else w := by
  rw [field_load _ _ _ _ _ (by simpa using hn)]
  simp only [load_isRequest _ _ _ (show 8 ≤ n by omega)]
  unfold doProcessDataFromNode
  dsimp only
  by_cases hreq : io.mem.byte (p + tNode + u8Type) = BusType.request.byte
  · rw [if_pos hreq]
    cases hcmd : BusCmd.ofByte (io.mem.byte (p + tNode + u8Cmd)) with
    | none => simp
    | some cmd =>
      cases cmd with
      | nodeRegister =>
        have hkept : (busHeader (p + tNode) .request .nodeRegister io.mem).loadBytes
            (p + tNode + (body + u8VersionStr)) 16 =
            io.mem.loadBytes (p + tNode + (body + u8VersionStr)) 16 :=
          Subtype.ext ((load_eq_iff _ _ _ _ _).mpr fun i _ =>
            busHeader_byte_off _ _ _ _ _ (.inr (by simp only [body, u8VersionStr]; omega)))
        simp only [hreq, true_and, if_true, rootDoProcessRegister, Io.modify_mem]
        rw [Nat.add_assoc (p + tNode), hkept]
      | _ => simp
  · rw [if_neg hreq]
    simp only [hreq, false_and, if_false]
    split
    · split <;> rfl
    · rfl

theorem delNode_sublist (pAddr : Mac) (nodes : List NodeInfo) :
    (delNodeFromNodedevList pAddr nodes).Sublist nodes := by
  induction nodes with
  | nil => exact List.Sublist.refl _
  | cons n nodes ih =>
    rw [delNodeFromNodedevList]
    split
    · exact List.sublist_cons_self ..
    · exact ih.cons_cons n

theorem offlineLoop_sublist (p tableSize : ℕ) (next nodes : List NodeInfo) (rmNum : ℕ) (m : Mem) :
    (offlineLoop p tableSize next nodes rmNum m).2.1.Sublist nodes := by
  induction next generalizing nodes rmNum m with
  | nil => exact List.Sublist.refl _
  | cons n next ih =>
    rw [offlineLoop]
    split
    · exact (ih _ _ _).trans (delNode_sublist _ _)
    · exact ih _ _ _

/-! ## What a step does to them -/

theorem rootOffline_w (e : RootEnv) (s : Sys) :
    ∃ nodes, nodes.Sublist s.w.nodes ∧ (rootOffline e s).w = { s.w with nodes := nodes } := by
  unfold rootOffline
  split
  · exact ⟨_, List.Sublist.refl _, rfl⟩
  · refine ⟨_, ?_, rfl⟩
    unfold rootDoChildOffline
    split
    · exact List.Sublist.refl _
    · split
      · exact List.Sublist.refl _
      · dsimp only
        split <;> exact offlineLoop_sublist _ _ _ _ _ _

section Steps
variable {s : Sys}

theorem rootCommand_strings (hcmd : s.cur.pServerCmd = s.cur.pRootMsg + tNode) (e : RootEnv) :
    (rootCommand e s).w.nodes = s.w.nodes ∧
      (rootCommand e s).w.configServerIp = s.w.configServerIp ∧
      Named s.w.configServerIp s.w.ota (rootCommand e s).w.ota
        ((queuedMessage s).bind (nameIn e.cmd.ota.mallocOk)) := by
  cases hr : s.w.serverQueue.receive s.root.sqmsg with
  | none =>
    simp only [rootCommand, queuedMessage, hr]
    exact ⟨trivial, trivial, Named.refl _ _⟩
  | some taken =>
    obtain ⟨sqmsg, queue⟩ := taken
    simp only [rootCommand, queuedMessage, hr]
    split
    · exact ⟨rfl, rfl, Named.refl _ _⟩
    · have hload := load_store_self (s.io.mem.store s.cur.pRootMsg s.w.gSelfMac.val)
        s.cur.pServerCmd (ServerqueueMsg.ofBytes sqmsg).tServerCmd.val
      rw [(ServerqueueMsg.ofBytes sqmsg).tServerCmd.2, hcmd] at hload
      have hw := command_w { s.w with serverQueue := queue } s.cur.pRootMsg e.cmd
        (s.io.modify fun m => (m.store s.cur.pRootMsg s.w.gSelfMac.val).store
          (s.cur.pRootMsg + tNode) (ServerqueueMsg.ofBytes sqmsg).tServerCmd.val) 101 (by decide)
      rw [Io.modify_mem, hload] at hw
      rw [hcmd]
      exact hw

theorem rootServe_strings (hcmd : s.cur.pServerCmd = s.cur.pRootMsg + tNode) (e : RootEnv) :
    (rootServe e s).w.nodes.Sublist s.w.nodes ∧
      (rootServe e s).w.configServerIp = s.w.configServerIp ∧
      Named s.w.configServerIp s.w.ota (rootServe e s).w.ota
        ((queuedMessage s).bind (nameIn e.cmd.ota.mallocOk)) := by
  obtain ⟨hcur, hroot, -⟩ := rootOffline_spec e s
  obtain ⟨nodes, hsub, hw⟩ := rootOffline_w e s
  have hqueued : queuedMessage (rootOffline e s) = queuedMessage s := by
    rw [queuedMessage, queuedMessage, hw, hroot]
  obtain ⟨hnodes, hip, hname⟩ := rootCommand_strings (s := rootOffline e s) (by rwa [hcur]) e
  rw [hqueued] at hname
  rw [hw] at hnodes hip hname
  have hkept : (rootServe e s).w.nodes = nodes := hnodes
  exact ⟨hkept ▸ hsub, hip, hname⟩

theorem rootTop_idle_w {e : RootEnv} (h : serves e s = false) :
    ∃ fd, (rootTop e s).w = { s.w with gSockfd := fd } := by
  unfold rootTop
  split
  · exact ⟨_, rfl⟩
  · next hon =>
    dsimp only
    rw [rootPing_w]
    split
    · exact ⟨_, rootPing_w e s⟩
    · next hflag =>
      obtain ⟨fd, hw⟩ := rootConnect_w e (rootPing e s)
      rw [rootPing_w] at hw
      rcases hcon : rootConnect e (rootPing e s) with ⟨s', ok⟩
      rw [hcon] at hw
      cases ok with
      | false => exact ⟨fd, hw⟩
      | true =>
        have hrun : e.connected = true ∧ e.isRoot = true := by simpa using hon
        have hpause : s.w.ota.bDeviceOtaFlag = false := by simpa using hflag
        simp [serves, hrun, hpause, hcon] at h

theorem rootTop_strings (h : s.cur.Aligned) (hpc : s.root.pc = .top) (e : RootEnv) :
    (rootTop e s).w.nodes.Sublist s.w.nodes ∧
      (rootTop e s).w.configServerIp = s.w.configServerIp ∧
      Named s.w.configServerIp s.w.ota (rootTop e s).w.ota (otaName s (.rootTop e)) := by
  simp only [otaName, serverMessage, otaMallocOk, hpc, true_and]
  cases hserves : serves e s with
  | false =>
    obtain ⟨fd, hw⟩ := rootTop_idle_w hserves
    rw [hw]
    exact ⟨List.Sublist.refl _, rfl, Named.refl _ _⟩
  | true =>
    obtain ⟨hcur, hroot, -⟩ := rootConnect_spec e (rootPing e s)
    obtain ⟨fd, hw⟩ := rootConnect_w e (rootPing e s)
    rw [rootPing_cur] at hcur
    rw [rootPing_root] at hroot
    rw [rootPing_w] at hw
    rw [rootTop_of_serves hserves]
    generalize (rootConnect e (rootPing e s)).1 = s' at hcur hroot hw
    have hqueued : queuedMessage s' = queuedMessage s := by
      rw [queuedMessage, queuedMessage, hw, hroot]
    obtain ⟨hnodes, hip, hname⟩ := rootServe_strings (s := s') (by rw [hcur]; exact h.cmd) e
    rw [hqueued] at hname
    rw [hw] at hnodes hip hname
    exact ⟨hnodes, hip, hname⟩

/-- The registry after a registration, or after nodes have left it. -/
def Enlisted (nodes nodes' : List NodeInfo) : Option (Mac × Bytes 16) → Prop
  | none => nodes'.Sublist nodes
  | some (mac, version) =>
    ∃ mallocOk, nodes' = (addNewnodeToNodedevList mallocOk mac version nodes).1

theorem slotRead_stored (h : s.cur.Aligned) (pkt : MeshPacket) :
    ((s.io.mem.store s.cur.pServerCmd pkt.data).store s.cur.pRootMsg pkt.src.val).load
      (s.cur.pRootMsg + tNode) childPacketLen = slotRead s pkt := by
  rw [slotRead, h.cmd]
  exact load_store_off _ _ _ _ _ (.inr (by rw [pkt.src.2]; rfl))

/-- The memory a message is handled in, behind the address of its sender. -/
def businessIo (s : Sys) (pkt : MeshPacket) : Io :=
  ((s.io.modify fun m => m.store s.cur.pServerCmd pkt.data).emit
    (.mwifiRootRead pkt.src pkt.data)).modify fun m => m.store s.cur.pRootMsg pkt.src.val

theorem rootRead_w (hpc : s.root.pc = .reading) (pkt : MeshPacket) (e : CmdEnv) :
    (rootRead (some pkt) e s).w =
      if businessRead s (.rootRead (some pkt) e) = none then s.w
      else if pkt.src = s.w.gSelfMac then
        (doProcessDataFromTcpserOrRoot s.w s.cur.pRootMsg e (businessIo s pkt)).2
      else (doProcessDataFromNode s.w pkt.src s.cur.pRootMsg e (businessIo s pkt)).2 := by
  have hheader : (slotRead s pkt).take packetHeaderLen =
      (s.io.mem.store s.cur.pServerCmd pkt.data).load s.cur.pServerCmd packetHeaderLen :=
    load_take _ _ _ _ (by decide)
  rw [businessRead, hpc, hheader]
  unfold rootRead rootBusiness
  cases hup : pkt.type.upgrade with
  | true => simp [hup]
  | false =>
    by_cases hbus : (s.io.mem.store s.cur.pServerCmd pkt.data).load s.cur.pServerCmd
        packetHeaderLen = mwifiAddrBroadcast.val
    · by_cases hsrc : pkt.src = s.w.gSelfMac <;>
        simp [hup, hbus, hsrc, businessIo, -packetHeaderLen]
    · simp [hup, hbus, -packetHeaderLen]

theorem rootRead_strings (h : s.cur.Aligned) (hpc : s.root.pc = .reading)
    (pkt : Option MeshPacket) (e : CmdEnv) :
    Enlisted s.w.nodes (rootRead pkt e s).w.nodes (nodeVersion s (.rootRead pkt e)) ∧
      (rootRead pkt e s).w.configServerIp = s.w.configServerIp ∧
      Named s.w.configServerIp s.w.ota (rootRead pkt e s).w.ota
        (otaName s (.rootRead pkt e)) := by
  cases pkt with
  | none => exact ⟨List.Sublist.refl _, rfl, Named.refl _ _⟩
  | some pkt =>
    have hslot : (businessIo s pkt).mem.load (s.cur.pRootMsg + tNode) childPacketLen =
      slotRead s pkt := slotRead_stored h pkt
    rw [rootRead_w hpc]
    simp only [nodeVersion, otaName, serverMessage, otaMallocOk]
    cases hb : businessRead s (.rootRead (some pkt) e) with
    | none => exact ⟨List.Sublist.refl _, rfl, Named.refl _ _⟩
    | some m =>
      have hm : m = (pkt.src, slotRead s pkt) := by
        rw [businessRead] at hb
        split at hb
        · exact (Option.some.inj hb).symm
        · cases hb
      rw [if_neg (Option.some_ne_none m), hm]
      simp only [Option.bind_some]
      by_cases hsrc : pkt.src = s.w.gSelfMac
      · have hw := command_w s.w s.cur.pRootMsg e (businessIo s pkt) childPacketLen (by decide)
        rw [hslot] at hw
        rw [if_pos hsrc, if_pos hsrc, if_neg fun hnot => hnot.1 hsrc]
        refine ⟨?_, hw.2⟩
        rw [hw.1]
        exact List.Sublist.refl _
      · have hw := node_w s.w pkt.src s.cur.pRootMsg e (businessIo s pkt) childPacketLen
          (by decide)
        rw [hslot] at hw
        rw [if_neg hsrc, if_neg hsrc, hw]
        by_cases hreg : IsRequest .nodeRegister (slotRead s pkt)
        · rw [if_pos hreg, if_pos ⟨hsrc, hreg⟩]
          exact ⟨⟨e.mallocOk, rfl⟩, rfl, Named.refl _ _⟩
        · rw [if_neg hreg, if_neg fun hand => hreg hand.2]
          exact ⟨List.Sublist.refl _, rfl, Named.refl _ _⟩

theorem otaTaskStep_named (self : Mac) (ip : List UInt8) (o : OtaShared) (i : ℕ) (e : OtaEvent) :
    Named ip o (otaTaskStep self o i e).1 none := by
  unfold otaTaskStep
  split
  · exact Named.refl ip o
  · dsimp only
    unfold OtaShared.effect
    split <;> exact ⟨rfl, rfl⟩

theorem step_strings (h : s.cur.Aligned) (ev : SysEvent) :
    Enlisted s.w.nodes (s.step ev).w.nodes (nodeVersion s ev) ∧
      (s.step ev).w.configServerIp = s.w.configServerIp ∧
      Named s.w.configServerIp s.w.ota (s.step ev).w.ota (otaName s ev) := by
  have hsame : Enlisted s.w.nodes s.w.nodes none ∧ s.w.configServerIp = s.w.configServerIp ∧
      Named s.w.configServerIp s.w.ota s.w.ota none :=
    ⟨List.Sublist.refl _, rfl, Named.refl _ _⟩
  cases ev with
  | rootTop e =>
    simp only [Sys.step]
    split
    · next hpc => exact rootTop_strings h hpc e
    · next hpc => simpa [otaName, nodeVersion, serverMessage, businessRead, hpc] using hsame
  | rootRead pkt e =>
    simp only [Sys.step]
    split
    · next hpc => exact rootRead_strings h hpc pkt e
    · next hpc =>
      cases pkt <;> simpa [otaName, nodeVersion, serverMessage, businessRead, hpc] using hsame
  | rootStart sqmsg =>
    simp only [Sys.step]
    split <;> exact hsame
  | tcpStart sqmsg =>
    simp only [Sys.step]
    split <;> exact hsame
  | tcpTurn e =>
    simp only [Sys.step]
    split <;> exact hsame
  | otaTask i e => exact ⟨List.Sublist.refl _, rfl, otaTaskStep_named _ _ _ _ _⟩

end Steps

/-! ## Every run of the root -/

/-- The registry has the versions that came last, and the name is terminated. -/
structure StringInvariant (w : Sys × (Mac → Bytes 16)) : Prop where
  root : RootInvariant w.1
  distinct : (w.1.w.nodes.map NodeInfo.mac).Nodup
  latest : ∀ n ∈ w.1.w.nodes, w.2 n.mac = n.version
  ip : w.1.w.configServerIp.length ≤ 16
  name : 0 ∈ w.1.w.ota.gOtaFirmwareName.val
  url : w.1.w.ota.urlOta.length < 128

theorem enlisted_latest {nodes nodes' : List NodeInfo} {latest : Mac → Bytes 16}
    (hdistinct : (nodes.map NodeInfo.mac).Nodup) (hlatest : ∀ n ∈ nodes, latest n.mac = n.version)
    {reg : Option (Mac × Bytes 16)} (h : Enlisted nodes nodes' reg) :
    (nodes'.map NodeInfo.mac).Nodup ∧ ∀ n ∈ nodes', (reg.elim latest fun r =>
      Function.update latest r.1 r.2) n.mac = n.version := by
  cases reg with
  | none => exact ⟨hdistinct.sublist (h.map _), fun n hn => hlatest n (h.subset hn)⟩
  | some r =>
    obtain ⟨mac, version⟩ := r
    obtain ⟨mallocOk, rfl⟩ := h
    rw [← map_entry_fst] at hdistinct ⊢
    rcases addNewnode_put mallocOk mac version nodes with ⟨-, hput⟩ | ⟨-, hsame, hnew⟩
    · rw [hput]
      refine ⟨put_distinct hdistinct mac version, fun n hn => ?_⟩
      have hentry := List.mem_map_of_mem (f := NodeInfo.entry) hn
      rw [hput, mem_put hdistinct] at hentry
      rcases hentry with heq | ⟨hne, hold⟩
      · obtain ⟨hmac, hversion⟩ := Prod.mk.inj heq
        rw [Option.elim_some, hmac, Function.update_self, hversion]
      · obtain ⟨m, hm, heq⟩ := List.mem_map.mp hold
        obtain ⟨hmac, hversion⟩ := Prod.mk.inj heq
        have hkept : Function.update latest mac version n.mac = latest n.mac :=
          Function.update_of_ne hne ..
        rw [Option.elim_some, hkept, ← hmac, ← hversion]
        exact hlatest m hm
    · rw [hsame]
      refine ⟨hdistinct, fun n hn => ?_⟩
      have hne : n.mac ≠ mac := fun hmac => hnew (hmac ▸ List.mem_map_of_mem hn)
      rw [Option.elim_some, Function.update_of_ne hne]
      exact hlatest n hn

theorem cstr_length_le (bs : List UInt8) : (cstr bs).length ≤ bs.length :=
  (List.takeWhile_prefix _).length_le

theorem otaUrl_length {ip : List UInt8} (hip : ip.length ≤ 16) (name : Bytes 32) :
    (otaUrl ip name).length < 128 := by
  have hname := cstr_length_le name.val
  rw [name.2] at hname
  have hhttp : "http://".toUTF8.toList.length = 7 := toList_length _
  have hpath : "/firmware_name/".toUTF8.toList.length = 15 := toList_length _
  rw [otaUrl, List.length_append, List.length_append, List.length_append, hhttp, hpath]
  omega

theorem noteVersion_eq (latest : Mac → Bytes 16) (s : Sys) (ev : SysEvent) :
    noteVersion latest s ev =
      (nodeVersion s ev).elim latest fun r => Function.update latest r.1 r.2 := by
  unfold noteVersion
  cases nodeVersion s ev <;> rfl

/-- The name is terminated behind a step exactly when the name it copies is. -/
theorem step_name {w : Sys × (Mac → Bytes 16)} (h : StringInvariant w) (ev : SysEvent) :
    (0 ∈ (w.1.step ev).w.ota.gOtaFirmwareName.val ↔
        ∀ name, otaName w.1 ev = some name → 0 ∈ name.val) ∧
      (w.1.step ev).w.ota.urlOta.length < 128 := by
  obtain ⟨-, -, hnamed⟩ := step_strings h.root.aligned ev
  cases hname : otaName w.1 ev with
  | none =>
    rw [hname] at hnamed
    rw [hnamed.1, hnamed.2]
    exact ⟨iff_of_true h.name fun _ heq => (by cases heq), h.url⟩
  | some name =>
    rw [hname] at hnamed
    rw [hnamed.1, hnamed.2]
    refine ⟨⟨fun hmem _ heq => ?_, fun hall => hall name rfl⟩, otaUrl_length h.ip name⟩
    rwa [← Option.some.inj heq]

theorem step_stringInvariant (w : Sys × (Mac → Bytes 16)) (ev : SysEvent)
    (h : StringInvariant w) (hev : TerminatedSent w ev) :
    StringInvariant (observe Sys.step noteVersion w ev) := by
  obtain ⟨henlisted, hip, -⟩ := step_strings h.root.aligned ev
  obtain ⟨hdistinct, hlatest⟩ := enlisted_latest h.distinct h.latest henlisted
  obtain ⟨hname, hurl⟩ := step_name h ev
  refine ⟨step_rootInvariant w.1 ev h.root, hdistinct, ?_, hip ▸ h.ip, hname.mpr hev.name, hurl⟩
  intro n hn
  rw [observe, noteVersion_eq]
  exact hlatest n hn

theorem stringsTerminated_iff (w : Sys × (Mac → Bytes 16)) (ev : SysEvent)
    (h : StringInvariant w) : StringsTerminated w.1 ev ↔ TerminatedSent w ev := by
  obtain ⟨hname, hurl⟩ := step_name h ev
  have hversions : (∀ n ∈ w.1.w.nodes, 0 ∈ n.version.val) ↔
      ∀ n ∈ w.1.w.nodes, 0 ∈ (w.2 n.mac).val :=
    forall₂_congr fun n hn => by rw [h.latest n hn]
  constructor
  · exact fun hs => ⟨fun ht => hversions.mp (hs.versions ht), hname.mp hs.name⟩
  · exact fun hs => ⟨fun ht => hversions.mpr (hs.versions ht), hname.mpr hs.name, hurl⟩

/-- **Strings from packets.** In every run of the root, each string is terminated when its length
is taken or it is printed, and the address of the firmware fits, exactly when every OTA command
brings a name with a NUL and every node that is registered when lengths are taken had one in the
version of its latest registration. -/
theorem packet_strings_terminated (mac : Mac) (configServerIp : Bytes 16)
    (bytes tcpBytes : ℕ → UInt8) (sqmsg : ServerqueueMsg) (latest : Mac → Bytes 16)
    (es : List SysEvent) :
    Along Sys.step StringsTerminated
        (.boot mac (cstr configServerIp.val) bytes tcpBytes sqmsg) es ↔
      Along (observe Sys.step noteVersion) TerminatedSent
        (.boot mac (cstr configServerIp.val) bytes tcpBytes sqmsg, latest) es := by
  rw [← along_observe noteVersion
    (.boot mac (cstr configServerIp.val) bytes tcpBytes sqmsg, latest)]
  refine along_iff_along step_stringInvariant stringsTerminated_iff
    ⟨⟨⟨⟨0, rfl⟩, rfl, .inl rfl⟩, rfl⟩, List.nodup_nil, fun n hn => absurd hn List.not_mem_nil, ?_,
      ?_, show 0 < 128 by decide⟩
  · have hle := cstr_length_le configServerIp.val
    rwa [configServerIp.2] at hle
  · exact List.mem_replicate.mpr ⟨by decide, rfl⟩

/-- The node 0a:0a:0a:0a:0a:0a registers with a version of sixteen letters. -/
def longVersion : MeshPacket :=
  ⟨macOf 10, .zero, List.replicate 6 255 ++ [1, 6] ++ List.replicate 7 0 ++ List.replicate 16 97,
    by decide⟩

/-- An OTA command for the root with a name of thirty-two letters. -/
def longName : List UInt8 :=
  List.replicate 6 2 ++ [1, 1] ++ List.replicate 32 97 ++ List.replicate 61 0

/-- The version is in the registry when the connection fails and the root registers again; the
name is printed as it comes. -/
theorem unterminated_strings_used :
    ¬ Along Sys.step StringsTerminated zeroBoot (startEvents ++
        [.rootRead (some longVersion) idleCmd, .tcpStart zeroSqmsg,
          .tcpTurn { readTurn longName (by decide) with select := .error },
          .rootTop (idleEnv 2000)]) ∧
      ¬ Along Sys.step StringsTerminated zeroBoot
        (startEvents ++ [.rootRead none idleCmd, .tcpStart zeroSqmsg,
          .tcpTurn (readTurn longName (by decide)), .rootTop (idleEnv 2000)]) := by
  constructor
  · intro h
    have hlast := h.2.2.2.2.2.1.versions (by decide)
    revert hlast
    decide
  · intro h
    have hlast := h.2.2.2.2.2.1.name
    revert hlast
    decide

end EspMesh
