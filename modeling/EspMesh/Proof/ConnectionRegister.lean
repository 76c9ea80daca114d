import EspMesh.Proof.PhotoArrival
import EspMesh.Proof.Registration

/-! # Registration on a connection

The guard of the connect block is the socket itself. A registration that fails leaves it open,
so the next iteration takes the connection for a registered one.
-/

namespace EspMesh
set_option autoImplicit false
set_option maxRecDepth 20000
open ByteMem Mem StepRuns

/-! ## What has been sent on a connection -/

/-- The registrations of the connection last opened, each with the outcome of its `send`, and
the registry at that time. -/
structure Registering where
  nodes : List NodeInfo
  sent : List (List UInt8 × Bool)

def IsRegister (cmd : BusCmd) (packet : List UInt8) : Prop :=
  (packet.drop (tNode + u8Type)).take 2 = [BusType.request.byte, cmd.byte]

structure Registering.Complete (r : Registering) : Prop where
  root : ∃ p ∈ r.sent, IsRegister .rootRegister p.1 ∧ p.2 = true
  child : r.nodes ≠ [] → ∃ p ∈ r.sent, IsRegister .nodeRegister p.1 ∧ p.2 = true

/-- The packets `root_send_register` sends in the iteration, with their outcomes. -/
def registerSent (e : RootEnv) (s : Sys) : List (List UInt8 × Bool) :=
  let io := (rootPing e s).io
  let out := (rootSendRegister s.w.gSelfMac s.w.nodes s.cur.pRootMsg e.register io).1
  (sentBlocks (newEvents io.trace out.trace)).reverse.zip
    [e.register.sendRoot, e.register.sendChild]

/-- The iteration gets as far as the connect block, and connects. -/
def connects (s : Sys) (e : RootEnv) : Bool :=
  decide (s.root.pc = .top) && e.connected && e.isRoot && !s.w.ota.bDeviceOtaFlag &&
    s.w.gSockfd.isNone && e.connect.isSome

def noteRegister (r : Registering) (s : Sys) : SysEvent → Registering
  | .rootTop e => if connects s e then ⟨s.w.nodes, registerSent e s⟩ else r
  | _ => r

/-- Past the connect block, an open connection is a registered one. -/
def UsedRegistered (w : Sys × Registering) : Prop :=
  w.1.root.pc = .reading → w.1.w.gSockfd ≠ none → w.2.Complete

/-- On a connection that is open and not registered the step sends registrations only. -/
def RegistersFirst (w : Sys × Registering) (ev : SysEvent) : Prop :=
  w.1.w.gSockfd ≠ none → ¬ w.2.Complete →
    ∀ packet ∈ sentBlocks (newEvents w.1.io.trace (w.1.step ev).io.trace),
      IsRegister .rootRegister packet ∨ IsRegister .nodeRegister packet

/-- The registrations on a connection just opened are sent without failure, and the number of
nodes does not come out as zero in a byte. -/
def RegistersFully (s : Sys) : SysEvent → Prop
  | .rootTop e => connects s e = true → e.register.sendRoot = true ∧
      (s.w.nodes ≠ [] → e.register.sendChild = true ∧ s.w.nodes.length % 256 ≠ 0)
  | _ => True

/-! ## The packets -/

theorem packet_codes (m : Mem) (p : ℕ) :
    ((m.load p rootPacketLen).drop (tNode + u8Type)).take 2 = m.load (p + tNode + u8Type) 2 := by
  rw [Mem.load_drop _ _ _ _ (by simp), Mem.load_take _ _ _ _ (by simp), Nat.add_assoc]

theorem buildRootRegister_isRegister (self : Mac) (p : ℕ) (m : Mem) :
    IsRegister .rootRegister ((buildRootRegister self p m).load p rootPacketLen) := by
  rw [IsRegister, packet_codes, buildRootRegister, load_store_off _ _ _ _ _ (.inl (by simp))]
  exact busHeader_codes _ _ _ _

theorem buildChildRegister_isRegister (self : Mac) (p : ℕ) (heap : ℕ → List UInt8)
    (nodes : List NodeInfo) (m : Mem) :
    IsRegister .nodeRegister ((buildChildRegister self p heap nodes m).load p rootPacketLen) := by
  rw [IsRegister, packet_codes, buildChildRegister, load_store_off _ _ _ _ _ (.inl (by simp))]
  exact busHeader_codes _ _ _ _

theorem registerSent_complete {s : Sys} {e : RootEnv} (hroot : e.register.sendRoot = true)
    (hchild : s.w.nodes ≠ [] → e.register.sendChild = true ∧ s.w.nodes.length % 256 ≠ 0) :
    (Registering.mk s.w.nodes (registerSent e s)).Complete := by
  have hregister := buildRootRegister_isRegister s.w.gSelfMac s.cur.pRootMsg (rootPing e s).io.mem
  by_cases hnil : s.w.nodes = []
  · have hsent : registerSent e s = [((buildRootRegister s.w.gSelfMac s.cur.pRootMsg
        (rootPing e s).io.mem).load s.cur.pRootMsg rootPacketLen, true)] := by
      have htrace : (rootSendRegister s.w.gSelfMac s.w.nodes s.cur.pRootMsg e.register
          (rootPing e s).io).1.trace = [.send ((buildRootRegister s.w.gSelfMac s.cur.pRootMsg
            (rootPing e s).io.mem).load s.cur.pRootMsg rootPacketLen)] ++
            (rootPing e s).io.trace := by
        simp only [rootSendRegister, hroot, hnil]
        rfl
      rw [registerSent, htrace, newEvents_append, hroot]
      rfl
    exact ⟨⟨_, by rw [hsent]; exact List.mem_singleton_self _, hregister, rfl⟩,
      fun h => absurd hnil h⟩
  · obtain ⟨hok, hcount⟩ := hchild hnil
    have hsent := rootSendRegister_nodes s.w.gSelfMac s.w.nodes s.cur.pRootMsg e.register
      (rootPing e s).io hroot hcount
    let root := buildRootRegister s.w.gSelfMac s.cur.pRootMsg (rootPing e s).io.mem
    let child := buildChildRegister s.w.gSelfMac s.cur.pRootMsg e.register.heap s.w.nodes root
    have hboth : registerSent e s = [(root.load s.cur.pRootMsg rootPacketLen, true),
        (child.load s.cur.pRootMsg rootPacketLen, true)] := by
      have htrace : (rootSendRegister s.w.gSelfMac s.w.nodes s.cur.pRootMsg e.register
          (rootPing e s).io).1.trace = [.send (child.load s.cur.pRootMsg rootPacketLen),
            .send (root.load s.cur.pRootMsg rootPacketLen)] ++ (rootPing e s).io.trace := by
        rw [hsent]
        rfl
      rw [registerSent, htrace, newEvents_append, hroot, hok]
      rfl
    refine ⟨⟨_, by rw [hboth]; exact List.mem_cons_self .., hregister, rfl⟩,
      fun _ =>
        ⟨_, by rw [hboth]; exact List.mem_cons_of_mem _ (List.mem_singleton_self _), ?_, rfl⟩⟩
    exact buildChildRegister_isRegister _ _ _ _ _

/-! ## What a step does to the socket -/

theorem command_gSockfd (w : World) (p : ℕ) (e : CmdEnv) (io : Io) :
    (doProcessDataFromTcpserOrRoot w p e io).2.gSockfd = w.gSockfd := by
  unfold doProcessDataFromTcpserOrRoot
  dsimp only
  split
  · split <;> rfl
  · rfl

theorem node_gSockfd (w : World) (which : Mac) (p : ℕ) (e : CmdEnv) (io : Io) :
    (doProcessDataFromNode w which p e io).2.gSockfd = w.gSockfd := by
  unfold doProcessDataFromNode
  dsimp only
  split
  · split <;> rfl
  · split
    · split <;> rfl
    · rfl

theorem rootServe_gSockfd (e : RootEnv) (s : Sys) : (rootServe e s).w.gSockfd = s.w.gSockfd := by
  have hoff : (rootOffline e s).w.gSockfd = s.w.gSockfd := by
    unfold rootOffline
    split <;> rfl
  refine Eq.trans ?_ hoff
  change (rootCommand e (rootOffline e s)).w.gSockfd = _
  unfold rootCommand
  split
  · rfl
  · dsimp only
    split
    · rfl
    · rw [command_gSockfd]

theorem rootRead_gSockfd (pkt : Option MeshPacket) (c : CmdEnv) (s : Sys) :
    (rootRead pkt c s).w.gSockfd = s.w.gSockfd := by
  cases pkt with
  | none => rfl
  | some pkt =>
    unfold rootRead
    dsimp only
    split
    · rfl
    · unfold rootBusiness
      dsimp only
      split
      · split
        · rw [command_gSockfd]
        · rw [node_gSockfd]
      · rfl

/-- Only an iteration that connects opens the socket. -/
theorem rootTop_gSockfd {e : RootEnv} {s : Sys} (hpc : s.root.pc = .top)
    (h : connects s e = false) : (rootTop e s).w.gSockfd = s.w.gSockfd := by
  have hcon : rootConnect e (rootPing e s) = (rootPing e s, true) ∨
      rootConnect e (rootPing e s) = (rootPing e s, false) ∨
        (e.connected && e.isRoot && !s.w.ota.bDeviceOtaFlag) = false := by
    unfold rootConnect
    rw [rootPing_w]
    split
    · exact .inl rfl
    · exact .inr (.inl rfl)
    · next hsock hfd => exact .inr (.inr (by simpa [connects, hpc, hsock, hfd] using h))
  unfold rootTop
  split
  · rfl
  · next hon =>
    dsimp only
    rw [rootPing_w]
    split
    · rw [rootPing_w]
    · next hflag =>
      rcases hcon with hcon | hcon | hnot
      · rw [hcon]
        dsimp only
        rw [rootServe_gSockfd, rootPing_w]
      · rw [hcon]
        dsimp only
        rw [rootPing_w]
      · simp_all

theorem step_gSockfd (s : Sys) (ev : SysEvent) : (s.step ev).w.gSockfd = s.w.gSockfd ∨
    (s.step ev).w.gSockfd = none ∨ ∃ e, ev = .rootTop e ∧ connects s e = true := by
  cases ev with
  | rootTop e =>
    cases hcon : connects s e with
    | true => exact .inr (.inr ⟨e, rfl, hcon⟩)
    | false =>
      simp only [Sys.step]
      split
      · next hpc => exact .inl (rootTop_gSockfd hpc hcon)
      · exact .inl rfl
  | rootRead pkt e =>
    simp only [Sys.step]
    split
    · exact .inl (rootRead_gSockfd pkt e s)
    · exact .inl rfl
  | tcpTurn e =>
    simp only [Sys.step]
    split
    · simp only [tcpTurn]
      split
      · exact .inr (.inl rfl)
      · exact .inl rfl
    · exact .inl rfl
  | rootStart sqmsg => simp only [Sys.step]; split <;> exact .inl rfl
  | tcpStart sqmsg => simp only [Sys.step]; split <;> exact .inl rfl
  | otaTask i e => exact .inl rfl

/-! ## Every run of the root -/

/-- A connection that is open is registered, wherever the task is. -/
def OpenRegistered (w : Sys × Registering) : Prop := w.1.w.gSockfd ≠ none → w.2.Complete

theorem step_openRegistered (w : Sys × Registering) (ev : SysEvent) (h : OpenRegistered w)
    (hev : RegistersFully w.1 ev) : OpenRegistered (observe Sys.step noteRegister w ev) := by
  obtain ⟨s, r⟩ := w
  intro hopen
  dsimp only [observe] at hopen ⊢
  by_cases hcon : ∃ e, ev = .rootTop e ∧ connects s e = true
  · obtain ⟨e, rfl, hcon⟩ := hcon
    obtain ⟨hroot, hchild⟩ := hev hcon
    rw [noteRegister, if_pos hcon]
    exact registerSent_complete hroot hchild
  · have hnote : noteRegister r s ev = r := by
      unfold noteRegister
      split
      · next e => exact if_neg fun h => hcon ⟨e, rfl, h⟩
      · rfl
    rw [hnote]
    rcases step_gSockfd s ev with hsame | hnone | hcon'
    · exact h (by rwa [hsame] at hopen)
    · exact absurd hnone hopen
    · exact absurd hcon' hcon

/-- **Registered connections.** In every run of the root in which the registrations on a new
connection are sent without failure, an open connection is a registered one in every state past
the connect block, and nothing else is sent on one that is not. -/
theorem connection_registered (mac : Mac) (ip : List UInt8) (bytes tcpBytes : ℕ → UInt8)
    (sqmsg : ServerqueueMsg) (es : List SysEvent)
    (h : Along Sys.step RegistersFully (Sys.boot mac ip bytes tcpBytes sqmsg) es) :
    let w := (Sys.boot mac ip bytes tcpBytes sqmsg, Registering.mk [] [])
    Through (observe Sys.step noteRegister) UsedRegistered w es ∧
      Along (observe Sys.step noteRegister) RegistersFirst w es := by
  intro w
  have hev := (along_observe noteRegister w es).mpr h
  have hstart : OpenRegistered w := fun hopen => absurd rfl hopen
  refine ⟨through_of_invariant_along (P := UsedRegistered) step_openRegistered ?_ hstart hev,
    along_of_invariant_along step_openRegistered (fun _ _ hw _ hopen hnot => absurd (hw hopen) hnot)
      hstart hev⟩
  exact fun _ hw _ => hw

/-- A node registers, the connection is lost, the server is not reached, and then it is: the root
and the node are registered again. -/
def lostConnection : List SysEvent :=
  connected ++ [.rootRead (some joinPacket) idleCmd,
    .tcpTurn { readTurn [0] (by decide) with select := .error },
    .rootTop { idleEnv 2000 with connect := none }, .rootTop (idleEnv 3000), .rootRead none idleCmd,
    .rootTop (idleEnv 4000)]

theorem connection_registered_again :
    let w := (zeroBoot, Registering.mk [] [])
    (run (observe Sys.step noteRegister) w lostConnection).2.nodes.map NodeInfo.mac = [macOf 10] ∧
      Through (observe Sys.step noteRegister) UsedRegistered w lostConnection ∧
      Along (observe Sys.step noteRegister) RegistersFirst w lostConnection :=
  ⟨by decide, connection_registered _ _ _ _ _ _ ⟨trivial, fun _ => ⟨rfl, fun h => absurd rfl h⟩,
    trivial, trivial, trivial, fun h => absurd h (by decide),
    fun _ => ⟨rfl, fun _ => ⟨rfl, by decide⟩⟩, trivial, fun h => absurd h (by decide), trivial⟩⟩

/-- The server is reached, but the registration is not sent; the next iteration goes on with the
connection. -/
theorem failed_registration_forgotten :
    let w := (zeroBoot, Registering.mk [] [])
    let es : List SysEvent := [.rootStart (Bytes.const 108 0),
      .rootTop { idleEnv 1000 with register := ⟨false, true, fun _ => []⟩ },
      .rootTop (idleEnv 2000)]
    ¬ (Through (observe Sys.step noteRegister) UsedRegistered w es ∧
      Along (observe Sys.step noteRegister) RegistersFirst w es) := by
  intro w es h
  have hlast : (run (observe Sys.step noteRegister) w es).2.Complete :=
    h.1.last (by decide) (by decide)
  obtain ⟨p, hp, -, hok⟩ := hlast.root
  have hsent : (run (observe Sys.step noteRegister) w es).2.sent.map Prod.snd = [false] := by decide
  have hmem := List.mem_map_of_mem (f := Prod.snd) hp
  rw [hsent, hok] at hmem
  exact absurd hmem (by simp)

end EspMesh
