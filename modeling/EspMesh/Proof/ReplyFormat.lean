import EspMesh.Model.NodeTask
import EspMesh.Proof.PhotoArrival

/-! # Replies to LED, PING and SWITCH

The root and a node answer the same requests in code of their own, each in the buffer that holds
the request. A node makes its packet a response; the root leaves the type as it came.
-/

namespace EspMesh
set_option autoImplicit false
open ByteMem Mem

/-- The three commands that both kinds of device answer with one byte. -/
def Answered (cmd : BusCmd) : Prop := cmd = .led ∨ cmd = .ping ∨ cmd = .switch

/-- The start of a node's packet, up to its value. -/
def nodeHead (type : BusType) (cmd : BusCmd) (value : UInt8) : List UInt8 :=
  mwifiAddrBroadcast.val ++ [type.byte, cmd.byte] ++ [value]

/-- The start of a root's packet. -/
def packetHead (mac : Mac) (type : BusType) (cmd : BusCmd) (value : UInt8) : List UInt8 :=
  mac.val ++ nodeHead type cmd value

/-- The packets the server gets from the root for the request in its slot. -/
def rootReplies (w : World) (p : ℕ) (c : CmdEnv) (io : Io) : List (List UInt8) :=
  sentBlocks (newEvents io.trace (doProcessDataFromTcpserOrRoot w p c io).1.trace)

/-- The packets written to the root. -/
def rootBound (trace : List Event) : List (List UInt8) :=
  trace.filterMap fun ev => match ev with
    | .mwifiWrite none _ packet => some packet
    | _ => none

def nodeAnswers (pkt : MeshPacket) (e : NodeEnv) (n : Node) : List (List UInt8) :=
  rootBound (newEvents n.io.trace (nodeRead pkt e n).io.trace)

/-- The packets the server gets for a request to a node: the root reads each answer of the node
into the slot `p` and passes it on. -/
def nodeReplies (pkt : MeshPacket) (e : NodeEnv) (n : Node) (w : World) (p : ℕ) (c : CmdEnv)
    (io : Io) : List (List UInt8) :=
  (nodeAnswers pkt e n).flatMap fun packet =>
    sentBlocks (newEvents io.trace (doProcessDataFromNode w n.gSelfMac p c
      (io.modify fun m => m.store (p + tNode) packet)).1.trace)

/-- One packet, which is the documented response. -/
def OneResponse (mac : Mac) (cmd : BusCmd) (value : UInt8) (replies : List (List UInt8)) : Prop :=
  ∃ packet, replies = [packet] ∧ packet.take 15 = packetHead mac .response cmd value

/-- The value a device with the light `color` has to answer. -/
def replyValue (cmd : BusCmd) (payload color : UInt8) : UInt8 :=
  match cmd with
  | .ping => color
  | _ => payload

/-! ## Heads in memory -/

section Heads
variable {m : Mem} {p : ℕ} {type : BusType} {cmd : BusCmd} {value : UInt8}

theorem packetHead_load {mac : Mac} : m.load p 15 = packetHead mac type cmd value ↔
    m.load p 6 = mac.val ∧ m.load (p + tNode) 9 = nodeHead type cmd value := by
  rw [show 15 = 6 + 9 from rfl, Mem.load_append, packetHead]
  refine ⟨fun h => List.append_inj h (by simp [mac.2]), ?_⟩
  rintro ⟨haddr, hnode⟩
  rw [haddr, ← hnode]
  rfl

theorem nodeHead_bytes (h : m.load p 9 = nodeHead type cmd value) :
    m.byte (p + u8Type) = type.byte ∧ m.byte (p + u8Cmd) = cmd.byte ∧
      m.byte (p + body) = value := by
  have hbyte : ∀ i < 9, m.byte (p + i) = (nodeHead type cmd value).getD i 0 := fun i hi => by
    rw [← h, load_getD _ _ _ _ hi]
  exact ⟨hbyte 6 (by decide), hbyte 7 (by decide), hbyte 8 (by decide)⟩

/-- The root's answers keep the type. -/
theorem byteAnswer_head (h : m.load (p + tNode) 9 = nodeHead type cmd value) (value' : UInt8) :
    (byteAnswer p cmd value' m).load (p + tNode) 9 = nodeHead type cmd value' := by
  have hkept : m.load (p + tNode) 7 = mwifiAddrBroadcast.val ++ [type.byte] := by
    rw [← Mem.load_take _ _ 9 _ (by omega), h]
    rfl
  have hcmd := load_store_self m (p + tNode + 7) [cmd.byte]
  have hvalue := load_store_self (m.store (p + tNode + 7) [cmd.byte]) (p + tNode + 8) [value']
  rw [List.length_singleton] at hcmd hvalue
  rw [← load_store_off _ (p + tNode + 8) (p + tNode + 7) 1 [value'] (.inl (by omega))] at hcmd
  rw [← load_store_off _ (p + tNode + 7) (p + tNode) 7 [cmd.byte] (.inl (by omega)),
    ← load_store_off _ (p + tNode + 8) (p + tNode) 7 [value'] (.inl (by omega))] at hkept
  rw [show 9 = 7 + (1 + 1) from rfl, Mem.load_append, Mem.load_append]
  simp only [byteAnswer, u8Cmd, body, Nat.add_assoc (p + tNode)]
  rw [hkept, hcmd, hvalue]
  rfl

end Heads

/-! ## The root -/

theorem answer_sent {gSockfd : Option ℕ} (hsock : gSockfd ≠ none) (p : ℕ) (build : Mem → Mem)
    (io : Io) {io' : Io} (new : List Event) (hmem : io'.mem = io.mem)
    (htrace : io'.trace = new ++ io.trace) (hnew : sentBlocks new = []) :
    sentBlocks (newEvents io.trace (answer gSockfd p build io').trace) =
      [(build io.mem).load p rootPacketLen] := by
  have hall : (answer gSockfd p build io').trace =
      .send ((build io.mem).load p rootPacketLen) :: new ++ io.trace := by
    rw [answer, if_neg hsock, sendSlot, Io.emit_trace, Io.modify_trace, Io.modify_mem, hmem, htrace]
    rfl
  rw [hall, newEvents_append]
  exact congrArg (List.cons _) hnew

/-- The root's reply is the request with the value put in. -/
theorem rootReplies_eq {w : World} {p : ℕ} {io : Io} {cmd : BusCmd} {payload : UInt8} {mac : Mac}
    (c : CmdEnv) (hcmd : Answered cmd) (hsock : w.gSockfd ≠ none)
    (hreq : io.mem.load p 15 = packetHead mac .request cmd payload) :
    ∃ packet, rootReplies w p c io = [packet] ∧
      packet.take 15 = packetHead mac .request cmd (replyValue cmd payload w.gLedColor) := by
  obtain ⟨haddr, hnode⟩ := packetHead_load.mp hreq
  obtain ⟨htype, hbyte, hvalue⟩ := nodeHead_bytes hnode
  have hpacket : ∀ value, ((byteAnswer p cmd value io.mem).load p rootPacketLen).take 15 =
      packetHead mac .request cmd value := by
    intro value
    rw [Mem.load_take _ _ _ _ (by simp)]
    refine packetHead_load.mpr ⟨?_, byteAnswer_head hnode value⟩
    rw [byteAnswer, load_store_off _ _ _ _ _ (.inl (by simp)), load_store_off _ _ _ _ _
      (.inl (by simp)), haddr]
  unfold rootReplies doProcessDataFromTcpserOrRoot
  dsimp only
  rw [htype, hbyte, hvalue, if_pos rfl, BusCmd.ofByte_byte]
  rcases hcmd with rfl | rfl | rfl
  · exact ⟨_, answer_sent hsock p _ _ [] rfl rfl rfl, hpacket _⟩
  · exact ⟨_, answer_sent hsock p _ _ [] rfl rfl rfl, hpacket _⟩
  · exact ⟨_, answer_sent hsock p _ _ [.updateRunMode _] rfl rfl rfl, hpacket _⟩

/-! ## A node -/

theorem node_answer_sent {n n' : Node} (build : Mem → Mem) (new : List Event)
    (htrace : n'.io.trace = new ++ n.io.trace) (hnew : rootBound new = []) :
    rootBound (newEvents n.io.trace (n'.answer build).io.trace) =
      [(build n'.io.mem).load 0 childPacketLen] := by
  have hall : (n'.answer build).io.trace =
      .mwifiWrite none .zero ((build n'.io.mem).load 0 childPacketLen) :: new ++ n.io.trace := by
    rw [Node.answer, nodeWrite, Io.emit_trace, Io.modify_trace, Io.modify_mem, htrace]
    rfl
  rw [hall, newEvents_append]
  exact congrArg (List.cons _) hnew

theorem head_of_parts {m : Mem} {type : BusType} {cmd : BusCmd} {value : UInt8}
    (hcodes : m.load 0 body = mwifiAddrBroadcast.val ++ [type.byte, cmd.byte])
    (hvalue : m.load body 1 = [value]) : m.load 0 9 = nodeHead type cmd value := by
  rw [show 9 = body + 1 from rfl, Mem.load_append, hcodes, Nat.zero_add, hvalue]
  rfl

/-- Behind the header a packet keeps its value. -/
theorem response_head (cmd : BusCmd) (m : Mem) :
    (busHeader 0 .response cmd m).load 0 9 = nodeHead .response cmd (m.byte body) :=
  head_of_parts (busHeader_load 0 .response cmd m)
    (congrArg (fun b => [b]) (busHeader_byte_off _ _ _ _ _ (.inr (by simp))))

/-- A node's answer is a response. -/
theorem nodeAnswers_eq {n : Node} {pkt : MeshPacket} {cmd : BusCmd} {payload : UInt8} (e : NodeEnv)
    (hcmd : Answered cmd) (hup : pkt.type.upgrade = false)
    (hreq : pkt.data.take 9 = nodeHead .request cmd payload) :
    ∃ packet, nodeAnswers pkt e n = [packet] ∧
      packet.take 9 = nodeHead .response cmd (replyValue cmd payload n.gLedColor) := by
  have hnode : (n.io.mem.store 0 pkt.data).load 0 9 = nodeHead .request cmd payload := by
    have hlen := congrArg List.length hreq
    rw [List.length_take, show (nodeHead .request cmd payload).length = 9 from rfl] at hlen
    rw [← hreq, ← Mem.load_take _ _ pkt.data.length _ (by omega), load_store_self]
  obtain ⟨htype, hbyte, hvalue⟩ := nodeHead_bytes hnode
  rw [Nat.zero_add] at htype hbyte hvalue
  unfold nodeAnswers nodeRead
  dsimp only
  rw [hup, if_neg (by simp), Io.modify_mem, htype, hbyte, if_pos rfl, BusCmd.ofByte_byte]
  rcases hcmd with rfl | rfl | rfl
  · refine ⟨_, node_answer_sent _ [] rfl rfl, ?_⟩
    rw [Mem.load_take _ _ _ _ (by simp)]
    exact (response_head .led _).trans (congrArg _ hvalue)
  · refine ⟨_, node_answer_sent _ [] rfl rfl, ?_⟩
    rw [Mem.load_take _ _ _ _ (by simp)]
    refine head_of_parts ?_ (load_store_self _ body [_])
    rw [load_store_off _ _ _ _ _ (.inl (by simp)), busHeader_load]
  · refine ⟨_, node_answer_sent _ [.updateRunMode _] rfl rfl, ?_⟩
    rw [Mem.load_take _ _ _ _ (by simp)]
    exact (response_head .switch _).trans (congrArg _ hvalue)

/-- What the server gets of it names the node. -/
theorem forwarded_eq {w : World} (which : Mac) (p : ℕ) (c : CmdEnv) (io : Io) {cmd : BusCmd}
    {value : UInt8} {packet : List UInt8} (hcmd : Answered cmd) (hsock : w.gSockfd ≠ none)
    (hhead : packet.take 9 = nodeHead .response cmd value) :
    ∃ reply, sentBlocks (newEvents io.trace (doProcessDataFromNode w which p c
        (io.modify fun m => m.store (p + tNode) packet)).1.trace) = [reply] ∧
      reply.take 15 = packetHead which .response cmd value := by
  have hnode : (io.mem.store (p + tNode) packet).load (p + tNode) 9 =
      nodeHead .response cmd value := by
    have hlen := congrArg List.length hhead
    rw [List.length_take, show (nodeHead .response cmd value).length = 9 from rfl] at hlen
    rw [← hhead, ← Mem.load_take _ _ packet.length _ (by omega), load_store_self]
  obtain ⟨htype, hbyte, -⟩ := nodeHead_bytes hnode
  unfold doProcessDataFromNode
  dsimp only
  rw [Io.modify_mem, htype, hbyte, if_neg (by decide), if_pos rfl, BusCmd.ofByte_byte]
  have hpacket : (((io.mem.store (p + tNode) packet).store p which.val).load p rootPacketLen).take
      15 = packetHead which .response cmd value := by
    have hself := load_store_self (io.mem.store (p + tNode) packet) p which.val
    rw [which.2] at hself
    rw [Mem.load_take _ _ _ _ (by simp)]
    refine packetHead_load.mpr ⟨hself, ?_⟩
    rw [load_store_off _ _ _ _ _ (.inr (by rw [which.2]; exact le_refl _)), hnode]
  have hsent := answer_sent hsock p (fun m => m.store p which.val)
    (io.modify fun m => m.store (p + tNode) packet) [] rfl rfl rfl
  rcases hcmd with rfl | rfl | rfl <;> exact ⟨_, hsent, hpacket⟩

/-! ## The two kinds of device -/

/-- The same request in the slot `p` of a root and in a packet to a node; both have the same
light, and the root has a connection. -/
structure SameRequest (cmd : BusCmd) (payload : UInt8) (w : World) (p : ℕ) (io : Io) (n : Node)
    (pkt : MeshPacket) : Prop where
  answered : Answered cmd
  root : io.mem.load p 15 = packetHead w.gSelfMac .request cmd payload
  node : pkt.data.take 9 = nodeHead .request cmd payload
  business : pkt.type.upgrade = false
  color : n.gLedColor = w.gLedColor
  socket : w.gSockfd ≠ none

theorem request_not_response {mac mac' : Mac} {cmd : BusCmd} {a b : UInt8} :
    packetHead mac .request cmd a ≠ packetHead mac' .response cmd b := by
  intro h
  have hnode := (List.append_inj h (by rw [mac.2, mac'.2])).2
  have htype : BusType.request.byte = BusType.response.byte :=
    congrArg (fun l => l.getD 6 0) hnode
  exact absurd htype (by decide)

/-- **Replies.** The root and a node answer a request with the same value, but never in one
format: what the server gets from the node is the documented response, what it gets from the
root is a request. -/
theorem reply_formats (cmd : BusCmd) (payload : UInt8) (w : World) (p : ℕ) (c : CmdEnv) (io : Io)
    (n : Node) (pkt : MeshPacket) (e : NodeEnv) (h : SameRequest cmd payload w p io n pkt)
    (w' : World) (q : ℕ) (c' : CmdEnv) (io' : Io) (hsock : w'.gSockfd ≠ none) :
    (¬ ∃ value, OneResponse w.gSelfMac cmd value (rootReplies w p c io) ∧
        OneResponse n.gSelfMac cmd value (nodeReplies pkt e n w' q c' io')) ∧
      OneResponse n.gSelfMac cmd (replyValue cmd payload w.gLedColor)
        (nodeReplies pkt e n w' q c' io') ∧
      ∃ packet, rootReplies w p c io = [packet] ∧
        packet.take 15 =
          packetHead w.gSelfMac .request cmd (replyValue cmd payload w.gLedColor) := by
  obtain ⟨packet, hreplies, hhead⟩ := rootReplies_eq c h.answered h.socket h.root
  obtain ⟨answer, hanswers, hanswer⟩ := nodeAnswers_eq (n := n) e h.answered h.business h.node
  obtain ⟨reply, hreply, hresponse⟩ := forwarded_eq n.gSelfMac q c' io' h.answered hsock hanswer
  refine ⟨?_, ⟨reply, ?_, h.color ▸ hresponse⟩, packet, hreplies, hhead⟩
  · rintro ⟨value, ⟨packet', hreplies', hhead'⟩, -⟩
    rw [hreplies] at hreplies'
    rw [← (List.cons.inj hreplies').1, hhead] at hhead'
    exact request_not_response hhead'
  · rw [nodeReplies, hanswers, List.flatMap_singleton, hreply]

/-! ## A LED request -/

/-- The slot 0 of a root that has been asked for the red light. -/
def ledSlot : Io := ⟨(Mem.mk (fun _ => 0) []).store 0 (packetHead (macOf 2) .request .led 2), []⟩

/-- The same request to a node, as the root writes it. -/
def ledPacket : MeshPacket := ⟨macOf 2, .zero, nodeHead .request .led 2, by decide⟩

def darkNode : Node := ⟨⟨⟨fun _ => 0, []⟩, []⟩, macOf 10, macOf 2, 0⟩

theorem ledRequest : SameRequest .led 2 startedRoot.w 0 ledSlot darkNode ledPacket :=
  ⟨.inl rfl, load_store_self ⟨fun _ => 0, []⟩ 0 (packetHead (macOf 2) .request .led 2), rfl, rfl,
    rfl, by decide⟩

theorem reply_formats_led :
    (¬ ∃ value, OneResponse (macOf 2) .led value (rootReplies startedRoot.w 0 idleCmd ledSlot) ∧
        OneResponse (macOf 10) .led value
          (nodeReplies ledPacket ⟨none, fun _ => true⟩ darkNode startedRoot.w 0 idleCmd ledSlot)) ∧
      OneResponse (macOf 10) .led 2
        (nodeReplies ledPacket ⟨none, fun _ => true⟩ darkNode startedRoot.w 0 idleCmd ledSlot) ∧
      ∃ packet, rootReplies startedRoot.w 0 idleCmd ledSlot = [packet] ∧
        packet.take 15 = packetHead (macOf 2) .request .led 2 :=
  reply_formats .led 2 startedRoot.w 0 idleCmd ledSlot darkNode ledPacket ⟨none, fun _ => true⟩
    ledRequest startedRoot.w 0 idleCmd ledSlot (by decide)

/-- The root's reply to the server is no response. -/
theorem root_reply_unmarked :
    ¬ ∃ value, OneResponse (macOf 2) .led value (rootReplies startedRoot.w 0 idleCmd ledSlot) ∧
      OneResponse (macOf 10) .led value
        (nodeReplies ledPacket ⟨none, fun _ => true⟩ darkNode startedRoot.w 0 idleCmd ledSlot) := by
  rintro ⟨value, ⟨packet, hreplies, hhead⟩, -⟩
  obtain ⟨packet', hreplies', hhead'⟩ :=
    rootReplies_eq idleCmd ledRequest.answered ledRequest.socket ledRequest.root
  rw [hreplies] at hreplies'
  rw [← (List.cons.inj hreplies').1, hhead] at hhead'
  exact request_not_response hhead'.symm

end EspMesh
