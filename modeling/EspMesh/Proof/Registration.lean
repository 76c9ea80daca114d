import EspMesh.Library.NulRecords
import EspMesh.Model.NodeTask
import EspMesh.Model.RootCommand

/-! # The registration of the children

The documented format puts the records of the nodes one after the other. `root_send_register`
adds its byte offset to a pointer to rows of 21 bytes, so of all it copies only the first MAC
lands where the format has it. The packet still reads right when the bytes that were in the
slot before happen to be the rest of the encoding.
-/

namespace EspMesh
set_option autoImplicit false
set_option maxRecDepth 20000
open ByteMem Mem NulRecords

def NodeInfo.record (n : NodeInfo) : Record 6 := (n.mac, cstr n.version.val)

def encodeRegistry (nodes : List NodeInfo) : List UInt8 := encode (nodes.map NodeInfo.record)

/-- A packet read by the documented format; `none` is a packet that is no NODE_REGISTER. -/
def decodeRegister (packet : List UInt8) : Option (List (Record 6)) :=
  if (packet.drop tNode).take body =
      mwifiAddrBroadcast.val ++ [BusType.request.byte, BusCmd.nodeRegister.byte] then
    some (decode 6 (packet.getD (tNode + body) 0).toNat
      (packet.drop (tNode + body + u8RegPayload)))
  else none

/-- The copies end inside the packet: `offset` is where the format has the entry. -/
def RowsFit : List NodeInfo → ℕ → Prop
  | [], _ => True
  | n :: ns, offset =>
    tNode + body + u8RegPayload + regPayloadRow * (mwifiAddrLen + offset) +
        ((cstr n.version.val).length + 1) ≤ rootPacketLen ∧
      RowsFit ns (offset + (mwifiAddrLen + (cstr n.version.val).length + 1))

/-! ## The loop over the registry -/

section Entries
variable {p : ℕ} (heap : ℕ → List UInt8)

theorem registerEntries_cons (n : NodeInfo) (ns : List NodeInfo) (hn : 0 ∈ n.version.val)
    (i offset : ℕ) (m : Mem) :
    registerEntries p heap (n :: ns) i offset m =
      registerEntries p heap ns (i + 1) (offset + (6 + (cstr n.version.val).length + 1))
        ((m.store (p + 15 + 21 * offset) n.mac.val).store (p + 15 + 21 * (6 + offset))
          (cstr n.version.val ++ [0])) := by
  rw [registerEntries, cstr_append_of_mem hn]
  rfl

theorem registerEntries_before (nodes : List NodeInfo) (hterm : ∀ n ∈ nodes, 0 ∈ n.version.val)
    (i offset : ℕ) (m : Mem) :
    SameBelow (p + 15 + 21 * offset) m (registerEntries p heap nodes i offset m) := by
  induction nodes generalizing i offset m with
  | nil => exact SameBelow.refl _ m
  | cons n ns ih =>
    rw [registerEntries_cons heap n ns (hterm n (List.mem_cons_self ..))]
    have hentry := ((SameBelow.refl (p + 15 + 21 * offset) m).store n.mac.val (le_refl _)).store
      (a := p + 15 + 21 * (6 + offset)) (cstr n.version.val ++ [0]) (by omega)
    have hrest := ih (fun n' h => hterm n' (List.mem_cons_of_mem _ h)) (i + 1)
      (offset + (6 + (cstr n.version.val).length + 1))
      ((m.store (p + 15 + 21 * offset) n.mac.val).store (p + 15 + 21 * (6 + offset))
        (cstr n.version.val ++ [0]))
    exact hentry.trans (hrest.mono (by omega))

theorem inside_registerEntries (nodes : List NodeInfo) (hterm : ∀ n ∈ nodes, 0 ∈ n.version.val)
    (i offset : ℕ) (m : Mem) :
    (registerEntries p heap nodes i offset m).Inside p (p + rootPacketLen) ↔
      RowsFit nodes offset ∧ m.Inside p (p + rootPacketLen) := by
  induction nodes generalizing i offset m with
  | nil => simp [registerEntries, RowsFit]
  | cons n ns ih =>
    rw [registerEntries_cons heap n ns (hterm n (List.mem_cons_self ..)),
      ih fun n' h => hterm n' (List.mem_cons_of_mem _ h), RowsFit, inside_store, inside_store,
      n.mac.2, List.length_append, List.length_singleton]
    simp only [tNode, body, u8RegPayload, regPayloadRow, mwifiAddrLen, maxVersionNameLen,
      rootPacketLen, childPacketLen]
    constructor
    · rintro ⟨hrest, ⟨_, hver⟩, _, hm⟩
      exact ⟨⟨by omega, hrest⟩, hm⟩
    · rintro ⟨⟨hver, hrest⟩, hm⟩
      exact ⟨hrest, by omega, by omega, hm⟩

/-- Entries whose copies fit are so few that only the first MAC lies in the encoding's place. -/
theorem RowsFit.small {nodes : List NodeInfo} {offset : ℕ} (h : RowsFit nodes offset)
    (hterm : ∀ n ∈ nodes, 0 ∈ n.version.val) (hne : nodes ≠ []) :
    offset + (encodeRegistry nodes).length ≤ 126 := by
  induction nodes generalizing offset with
  | nil => exact absurd rfl hne
  | cons n ns ih =>
    have hlen : (cstr n.version.val).length < 16 := by
      have := cstr_length_lt (hterm n (List.mem_cons_self ..))
      rwa [n.version.2] at this
    obtain ⟨hn, hns⟩ := h
    simp only [tNode, body, u8RegPayload, regPayloadRow, mwifiAddrLen, maxVersionNameLen,
      rootPacketLen, childPacketLen] at hn
    rw [encodeRegistry, List.map_cons, encode_cons_length, ← encodeRegistry, NodeInfo.record]
    dsimp only
    cases ns with
    | nil =>
      rw [show (encodeRegistry []).length = 0 from rfl]
      omega
    | cons n' ns =>
      have hih := ih hns (fun m hm => hterm m (List.mem_cons_of_mem _ hm)) (by simp)
      simp only [mwifiAddrLen] at hih
      omega

end Entries

/-! ## The two packets -/

section Packet
variable (self : Mac) (p : ℕ) (heap : ℕ → List UInt8) (m : Mem)

theorem inside_buildRootRegister :
    (buildRootRegister self p m).Inside p (p + rootPacketLen) ↔ m.Inside p (p + rootPacketLen) := by
  have hversion : (configDeviceVersion ++ [0]).length = 6 := rfl
  simp only [buildRootRegister, inside_store, hversion]
  rw [inside_busHeader _ _ _ _ _ _ (by omega) (by simp), inside_store, self.2]
  simp only [tNode, body, rootPacketLen, childPacketLen, mwifiAddrLen]
  exact ⟨fun h => h.2.2, fun h => ⟨by omega, by omega, h⟩⟩

theorem buildRootRegister_byte (a : ℕ) (h : p + 20 ≤ a) :
    (buildRootRegister self p m).byte a = m.byte a := by
  have hversion : (configDeviceVersion ++ [0]).length = 6 := rfl
  simp only [buildRootRegister, tNode, body]
  rw [store_byte_off _ _ _ _ (.inr (by rw [hversion]; omega)),
    busHeader_byte_off _ _ _ _ _ (.inr (by omega)),
    store_byte_off _ _ _ _ (.inr (by rw [self.2]; omega))]

theorem inside_buildChildRegister (nodes : List NodeInfo)
    (hterm : ∀ n ∈ nodes, 0 ∈ n.version.val) :
    (buildChildRegister self p heap nodes m).Inside p (p + rootPacketLen) ↔
      RowsFit nodes 0 ∧ m.Inside p (p + rootPacketLen) := by
  rw [← inside_registerEntries heap nodes hterm 0 0 m]
  simp only [buildChildRegister, inside_store, List.length_singleton]
  rw [inside_busHeader _ _ _ _ _ _ (by omega) (by simp), inside_store, self.2]
  simp only [tNode, body, rootPacketLen, childPacketLen, mwifiAddrLen]
  exact ⟨fun h => h.2.2, fun h => ⟨by omega, by omega, h⟩⟩

theorem buildChildRegister_head (nodes : List NodeInfo) :
    (buildChildRegister self p heap nodes m).load p 15 =
      self.val ++ (mwifiAddrBroadcast.val ++ [BusType.request.byte, BusCmd.nodeRegister.byte]) ++
        [UInt8.ofNat nodes.length] := by
  let m' := (registerEntries p heap nodes 0 0 m).store p self.val
  let m'' := busHeader (p + 6) .request .nodeRegister m'
  let count := [UInt8.ofNat nodes.length]
  have hsplit : (m''.store (p + 14) count).load p (6 + body + 1) =
      (m''.store (p + 14) count).load p 6 ++ (m''.store (p + 14) count).load (p + 6) body ++
        (m''.store (p + 14) count).load (p + 14) 1 := by
    rw [load_append, load_append]
    rfl
  have hself := load_store_self (registerEntries p heap nodes 0 0 m) p self.val
  rw [self.2] at hself
  have haddr : (m''.store (p + 14) count).load p 6 = self.val := by
    rw [load_store_off _ _ _ _ _ (.inl (by omega)), ← hself, load_eq_iff]
    exact fun i hi => busHeader_byte_off _ _ _ _ _ (.inl (by omega))
  have hheader := busHeader_load (p + 6) .request .nodeRegister m'
  rw [← load_store_off _ (p + 14) _ _ count (.inl (by simp only [body]; omega))] at hheader
  have hcount : (m''.store (p + 14) count).load (p + 14) 1 = count :=
    load_store_self m'' (p + 14) count
  rw [haddr, hheader, hcount] at hsplit
  exact hsplit

/-- Of the payload, the first MAC is written and the bytes behind it are not. -/
theorem buildChildRegister_payload (n : NodeInfo) (ns : List NodeInfo)
    (hterm : ∀ n' ∈ n :: ns, 0 ∈ n'.version.val) (k : ℕ) (hk : 6 + k ≤ 126) :
    (buildChildRegister self p heap (n :: ns) m).load (p + 15) (6 + k) =
      n.mac.val ++ m.load (p + 21) k := by
  have hbyte : ∀ a, p + 15 ≤ a → a < p + 141 →
      (buildChildRegister self p heap (n :: ns) m).byte a =
        (m.store (p + 15) n.mac.val).byte a := by
    intro a hlo hhi
    simp only [buildChildRegister, tNode, body]
    rw [store_byte_off _ _ _ _ (.inr (by rw [List.length_singleton]; omega)),
      busHeader_byte_off _ _ _ _ _ (.inr (by omega)),
      store_byte_off _ _ _ _ (.inr (by rw [self.2]; omega)),
      registerEntries_cons heap n ns (hterm n (List.mem_cons_self ..))]
    rw [registerEntries_before heap ns (fun n' h => hterm n' (List.mem_cons_of_mem _ h)) _ _ _ a
        (by omega),
      store_byte_off _ _ _ _ (.inl (by omega))]
  have hmac := load_store_self m (p + 15) n.mac.val
  rw [n.mac.2] at hmac
  have hload : (buildChildRegister self p heap (n :: ns) m).load (p + 15) (6 + k) =
      (m.store (p + 15) n.mac.val).load (p + 15) (6 + k) :=
    (load_eq_iff _ _ _ _ _).mpr fun i hi => hbyte _ (by omega) (by omega)
  rw [hload, load_append, hmac, load_store_off _ _ _ _ _ (.inr (by rw [n.mac.2]))]

end Packet

/-! ## The decoded packet -/

section Decoded
variable {nodes : List NodeInfo}

theorem decodeRegister_of_head (self : Mac) (m : Mem) (p : ℕ) (count : UInt8)
    (h : m.load p 15 = self.val ++ (mwifiAddrBroadcast.val ++
      [BusType.request.byte, BusCmd.nodeRegister.byte]) ++ [count]) :
    decodeRegister (m.load p rootPacketLen) =
      some (decode 6 count.toNat (m.load (p + 15) 1421)) := by
  have hlen : self.val.length = 6 := self.2
  have hsplit : m.load p rootPacketLen = self.val ++ (mwifiAddrBroadcast.val ++
      [BusType.request.byte, BusCmd.nodeRegister.byte]) ++ [count] ++ m.load (p + 15) 1421 := by
    rw [← h, ← load_append]
    rfl
  have hhead : ((m.load p rootPacketLen).drop tNode).take body = mwifiAddrBroadcast.val ++
      [BusType.request.byte, BusCmd.nodeRegister.byte] := by
    rw [hsplit, List.append_assoc, List.append_assoc, tNode, List.drop_left' hlen]
    exact List.take_left' rfl
  have hcount : (m.load p rootPacketLen).getD (tNode + body) 0 = count := by
    have hbyte := load_getD m p 15 14 (by omega)
    rw [h, List.getD_append_right _ _ _ _ (by simp [hlen, mwifiAddrBroadcast.2])] at hbyte
    rw [load_getD _ _ _ _ (by simp), tNode, body, ← hbyte]
    simp [hlen, mwifiAddrBroadcast.2]
  rw [decodeRegister, if_pos hhead, hcount]
  simp only [tNode, body, u8RegPayload, rootPacketLen, childPacketLen, mwifiAddrLen]
  rw [Mem.load_drop _ _ _ _ (by omega)]

theorem NodeInfo.record_clean (n : NodeInfo) : Clean n.record := cstr_no_nul n.version.val

/-- Entries of seven bytes or more that fit are few enough for the count's one byte. -/
theorem encodeRegistry_length (nodes : List NodeInfo) :
    7 * nodes.length ≤ (encodeRegistry nodes).length := by
  induction nodes with
  | nil => exact le_rfl
  | cons n ns ih =>
    rw [encodeRegistry, List.map_cons, encode_cons_length, ← encodeRegistry, List.length_cons]
    omega

theorem encodeRegistry_cons (n : NodeInfo) (ns : List NodeInfo) :
    encodeRegistry (n :: ns) = n.mac.val ++ (encodeRegistry (n :: ns)).drop 6 := by
  have h : encodeRegistry (n :: ns) =
      n.mac.val ++ (cstr n.version.val ++ 0 :: encodeRegistry ns) := by
    simp [encodeRegistry, encode_cons, NodeInfo.record]
  conv_rhs => rw [h, List.drop_left' n.mac.2, ← h]

/-- **The packet.** It decodes to the registry exactly when its payload starts with the
registry's encoding. -/
theorem buildChildRegister_decodes (self : Mac) (p : ℕ) (heap : ℕ → List UInt8) (m : Mem)
    (hfit : 15 + (encodeRegistry nodes).length ≤ rootPacketLen) :
    decodeRegister ((buildChildRegister self p heap nodes m).load p rootPacketLen) =
        some (nodes.map NodeInfo.record) ↔
      (buildChildRegister self p heap nodes m).load (p + 15) (encodeRegistry nodes).length =
        encodeRegistry nodes := by
  simp only [rootPacketLen, childPacketLen, mwifiAddrLen] at hfit
  have hnum := encodeRegistry_length nodes
  have hcount : (UInt8.ofNat nodes.length).toNat = (nodes.map NodeInfo.record).length := by
    rw [UInt8.toNat_ofNat', List.length_map]
    omega
  have hclean : ∀ r ∈ nodes.map NodeInfo.record, Clean r := by
    intro r hr
    obtain ⟨n, -, rfl⟩ := List.mem_map.mp hr
    exact n.record_clean
  have hlen : (encodeRegistry nodes).length ≤ 1421 := by omega
  rw [decodeRegister_of_head self _ p _ (buildChildRegister_head self p heap m nodes), hcount,
    Option.some_inj, decode_iff _ hclean _ (by rwa [load_length]), ← encodeRegistry,
    List.prefix_iff_eq_take, Mem.load_take _ _ _ _ hlen, eq_comm]

end Decoded

/-! ## What a node's own registration is forwarded as -/

theorem rootDoProcessRegister_forwards (w : World) (fd : ℕ) (hfd : w.gSockfd = some fd)
    (which : Mac) (q : ℕ) (mallocOk : Bool) (io : Io) (payload : List UInt8)
    (hslot : io.mem.load (q + tNode + body) payload.length = payload)
    (hlen : 14 + payload.length ≤ rootPacketLen) :
    ∃ packet, (rootDoProcessRegister w which q mallocOk io).1.trace = .send packet :: io.trace ∧
      packet.take (14 + payload.length) = w.gSelfMac.val ++ (mwifiAddrBroadcast.val ++
        [BusType.request.byte, BusCmd.nodeRegister.byte]) ++ payload := by
  let m := busHeader (q + tNode) .request .nodeRegister io.mem
  have hheader : (m.store q w.gSelfMac.val).load (q + 6) body =
      mwifiAddrBroadcast.val ++ [BusType.request.byte, BusCmd.nodeRegister.byte] := by
    rw [load_store_off _ _ _ _ _ (.inr (by rw [w.gSelfMac.2]))]
    exact busHeader_load _ _ _ _
  have hself := load_store_self m q w.gSelfMac.val
  rw [w.gSelfMac.2] at hself
  have hpayload : (m.store q w.gSelfMac.val).load (q + 14) payload.length = payload := by
    rw [load_store_off _ _ _ _ _ (.inr (by rw [w.gSelfMac.2]; omega))]
    exact ((load_eq_iff _ _ _ _ _).mpr fun i _ =>
      busHeader_byte_off _ _ _ _ _ (.inr (by simp only [tNode]; omega))).trans hslot
  refine ⟨(m.store q w.gSelfMac.val).load q rootPacketLen, ?_, ?_⟩
  · simp [rootDoProcessRegister, answer, hfd, sendSlot, m]
  · rw [Mem.load_take _ _ _ _ hlen, load_append, show 14 = 6 + body from rfl, load_append, hself,
      hheader]
    exact congrArg _ hpayload

/-- The packet of a node's `SEND_REG` carries its registration as a registry of one. -/
theorem nodeRegister_payload (n : Node) (version : Bytes 16)
    (hversion : cstr version.val = configDeviceVersion) :
    (nodeRegister n).io.mem.load body (1 + (encodeRegistry [⟨n.gSelfMac, version⟩]).length) =
      1 :: encodeRegistry [⟨n.gSelfMac, version⟩] := by
  have hencode : encodeRegistry [⟨n.gSelfMac, version⟩] =
      n.gSelfMac.val ++ (configDeviceVersion ++ [0]) := by
    simp [encodeRegistry, encode, NodeInfo.record, hversion]
  let m := busHeader 0 .request .nodeRegister n.io.mem
  let one : List UInt8 := [1]
  have hmem : (nodeRegister n).io.mem = ((m.store body one).store (body + devVersionAddr)
      n.gSelfMac.val).store (body + u8VersionStr) (configDeviceVersion ++ [0]) := rfl
  have hlen : (encodeRegistry [⟨n.gSelfMac, version⟩]).length =
      6 + (configDeviceVersion ++ [0]).length := by
    rw [hencode, List.length_append, n.gSelfMac.2]
  have hver := load_store_self ((m.store body one).store (body + devVersionAddr) n.gSelfMac.val)
    (body + u8VersionStr) (configDeviceVersion ++ [0])
  have hmac := load_store_self (m.store body one) (body + devVersionAddr) n.gSelfMac.val
  rw [n.gSelfMac.2, ← load_store_off _ (body + u8VersionStr) (body + devVersionAddr) 6
    (configDeviceVersion ++ [0]) (.inl (by simp))] at hmac
  have hone := load_store_self m body one
  rw [← load_store_off _ (body + devVersionAddr) body _ n.gSelfMac.val (.inl (by simp [one])),
    ← load_store_off _ (body + u8VersionStr) body _ (configDeviceVersion ++ [0])
      (.inl (by simp [one]))] at hone
  rw [hlen, hmem, load_append, load_append, hencode]
  exact congrArg₂ _ hone (congrArg₂ _ hmac hver)

/-! ## Bulk registration -/

/-- What a run of `root_send_register` should leave: no store outside the packet at `p`, and
behind the packet of the root one packet that decodes to the registry. -/
structure RegisterRight (gSelfMac : Mac) (nodes : List NodeInfo) (p : ℕ) (before after : Io) :
    Prop where
  inside : after.mem.Inside p (p + rootPacketLen)
  decodes : nodes ≠ [] → ∃ packet root,
    after.trace = .send packet :: .send root :: before.trace ∧
      decodeRegister packet = some (nodes.map NodeInfo.record) ∧
      -- What the root forwards when the only node registers by itself, in whatever state.
      ∀ n, nodes = [n] → ∀ (w : World) (fd q : ℕ) (mallocOk : Bool) (io : Io),
        w.gSelfMac = gSelfMac → w.gSockfd = some fd →
        io.mem.load (q + tNode + body) (1 + (encodeRegistry nodes).length) =
          1 :: encodeRegistry nodes →
        ∃ forwarded, (rootDoProcessRegister w n.mac q mallocOk io).1.trace =
            .send forwarded :: io.trace ∧
          packet.take (15 + (encodeRegistry nodes).length) =
            forwarded.take (15 + (encodeRegistry nodes).length)

theorem rootSendRegister_nil (self : Mac) (p : ℕ) (e : RegisterEnv) (io : Io) :
    (rootSendRegister self [] p e io).1.mem = buildRootRegister self p io.mem := by
  unfold rootSendRegister
  cases e.sendRoot <;> rfl

theorem rootSendRegister_nodes (self : Mac) (nodes : List NodeInfo) (p : ℕ) (e : RegisterEnv)
    (io : Io) (hsend : e.sendRoot = true) (hcount : nodes.length % 256 ≠ 0) :
    (rootSendRegister self nodes p e io).1 =
      ⟨buildChildRegister self p e.heap nodes (buildRootRegister self p io.mem),
        .send ((buildChildRegister self p e.heap nodes (buildRootRegister self p io.mem)).load p
          rootPacketLen) ::
        .send ((buildRootRegister self p io.mem).load p rootPacketLen) :: io.trace⟩ := by
  have hnum : UInt8.ofNat nodes.length ≠ 0 := by
    intro h
    have hzero := congrArg UInt8.toNat h
    rw [UInt8.toNat_ofNat', UInt8.toNat_zero] at hzero
    exact hcount hzero
  unfold rootSendRegister
  rw [hsend]
  simp only [Bool.not_true, Bool.false_eq_true, if_false, if_neg hnum]
  rfl

theorem payload_iff_stale (self : Mac) (nodes : List NodeInfo) (p : ℕ) (heap : ℕ → List UInt8)
    (bytes : ℕ → UInt8) (hterm : ∀ n ∈ nodes, 0 ∈ n.version.val) (hne : nodes ≠ [])
    (hrows : RowsFit nodes 0) :
    (buildChildRegister self p heap nodes (buildRootRegister self p ⟨bytes, []⟩)).load (p + 15)
          (encodeRegistry nodes).length = encodeRegistry nodes ↔
      (⟨bytes, []⟩ : Mem).load (p + 21) ((encodeRegistry nodes).length - 6) =
        (encodeRegistry nodes).drop 6 := by
  obtain ⟨n, ns, rfl⟩ := List.exists_cons_of_ne_nil hne
  have hsmall := hrows.small hterm hne
  have hnum := encodeRegistry_length (n :: ns)
  rw [List.length_cons] at hnum
  obtain ⟨k, hk⟩ : ∃ k, (encodeRegistry (n :: ns)).length = 6 + k :=
    ⟨(encodeRegistry (n :: ns)).length - 6, by omega⟩
  have hroot : (buildRootRegister self p ⟨bytes, []⟩).load (p + 21) k =
      (⟨bytes, []⟩ : Mem).load (p + 21) k :=
    (load_eq_iff _ _ _ _ _).mpr fun i _ => buildRootRegister_byte self p _ _ (by omega)
  rw [hk, Nat.add_sub_cancel_left,
    buildChildRegister_payload self p heap _ n ns hterm k (by omega), hroot]
  conv_lhs => rw [encodeRegistry_cons]
  rw [List.append_cancel_left_eq]

/-- **Bulk registration.** `root_send_register` builds the documented packet exactly when the
copies to rows end inside it and the slot already held the encoding behind the first MAC. -/
theorem bulk_registration (self : Mac) (nodes : List NodeInfo) (p : ℕ) (e : RegisterEnv)
    (bytes : ℕ → UInt8) (trace : List Event) (hterm : ∀ n ∈ nodes, 0 ∈ n.version.val)
    (hfit : 15 + (encodeRegistry nodes).length ≤ rootPacketLen) (hsend : e.sendRoot = true) :
    RegisterRight self nodes p ⟨⟨bytes, []⟩, trace⟩
        (rootSendRegister self nodes p e ⟨⟨bytes, []⟩, trace⟩).1 ↔
      nodes = [] ∨ RowsFit nodes 0 ∧
        (⟨bytes, []⟩ : Mem).load (p + 21) ((encodeRegistry nodes).length - 6) =
          (encodeRegistry nodes).drop 6 := by
  by_cases hne : nodes = []
  · subst hne
    refine iff_of_true ⟨?_, fun h => absurd rfl h⟩ (.inl rfl)
    rw [rootSendRegister_nil, inside_buildRootRegister]
    exact fun s hs => absurd hs List.not_mem_nil
  have hnum := encodeRegistry_length nodes
  have hlen : (encodeRegistry nodes).length ≤ 1421 := by
    simp only [rootPacketLen, childPacketLen, mwifiAddrLen] at hfit
    omega
  have hstart : (buildRootRegister self p ⟨bytes, []⟩).Inside p (p + rootPacketLen) :=
    (inside_buildRootRegister self p _).mpr fun s hs => absurd hs List.not_mem_nil
  have hinside := inside_buildChildRegister self p e.heap (buildRootRegister self p ⟨bytes, []⟩)
    nodes hterm
  have hdecodes := buildChildRegister_decodes self p e.heap (buildRootRegister self p ⟨bytes, []⟩)
    hfit
  have hcount : nodes.length % 256 ≠ 0 := by
    have := List.length_pos_of_ne_nil hne
    omega
  rw [rootSendRegister_nodes self nodes p e _ hsend hcount]
  constructor
  · intro h
    obtain ⟨packet, root, htrace, hread, -⟩ := h.decodes hne
    obtain ⟨hpacket, -⟩ := List.cons.inj htrace
    have hrows := (hinside.mp h.inside).1
    rw [← Event.send.inj hpacket, hdecodes, payload_iff_stale self nodes p _ _ hterm hne hrows]
      at hread
    exact .inr ⟨hrows, hread⟩
  · rintro (h | ⟨hrows, hstale⟩)
    · exact absurd h hne
    have hpayload := (payload_iff_stale self nodes p e.heap bytes hterm hne hrows).mpr hstale
    refine ⟨hinside.mpr ⟨hrows, hstart⟩, fun _ => ⟨_, _, rfl, hdecodes.mpr hpayload, ?_⟩⟩
    intro n hn w fd q mallocOk io hself hfd hslot
    have hcons : (1 :: encodeRegistry nodes).length = 1 + (encodeRegistry nodes).length := by
      rw [List.length_cons, Nat.add_comm]
    obtain ⟨forwarded, hsent, htake⟩ := rootDoProcessRegister_forwards w fd hfd n.mac q mallocOk io
      (1 :: encodeRegistry nodes) (by rwa [hcons]) (by rw [hcons]; omega)
    refine ⟨forwarded, hsent, ?_⟩
    rw [hcons, ← Nat.add_assoc, hself] at htake
    rw [htake, Mem.load_take _ _ _ _ hfit, load_append, hpayload, buildChildRegister_head, hn]
    simp

/-- Version "0.0.4". -/
def versionFour : Bytes 16 := ⟨[48, 46, 48, 46, 52, 0, 0, 0, 0, 0, 0, 0, 0, 0, 0, 0], rfl⟩

def threeNodes : List NodeInfo :=
  [⟨macOf 10, versionFour⟩, ⟨macOf 11, versionFour⟩, ⟨macOf 12, versionFour⟩]

/-- A slot in which the same nodes were registered rightly before. -/
def registeredSlot (a : ℕ) : UInt8 := ((encodeRegistry threeNodes).drop 6).getD (a - 21) 0

theorem bulk_registration_three :
    RegisterRight (macOf 2) threeNodes 0 ⟨⟨registeredSlot, []⟩, []⟩
      (rootSendRegister (macOf 2) threeNodes 0 ⟨true, true, fun _ => []⟩
        ⟨⟨registeredSlot, []⟩, []⟩).1 :=
  (bulk_registration (macOf 2) threeNodes 0 ⟨true, true, fun _ => []⟩ registeredSlot []
    (by decide) (by decide) rfl).mpr
    (.inr ⟨⟨by decide, by decide, by decide, trivial⟩, by decide⟩)

def registerOne (version : Bytes 16) (bytes : ℕ → UInt8) : Io :=
  (rootSendRegister (macOf 2) [⟨macOf 10, version⟩] 0
    ⟨true, true, fun _ => []⟩ ⟨⟨bytes, []⟩, []⟩).1

/-- With version "0.0.4" and a clean slot the server reads an empty version. -/
theorem version_misplaced :
    let version : Bytes 16 := ⟨[48, 46, 48, 46, 52, 0, 0, 0, 0, 0, 0, 0, 0, 0, 0, 0], rfl⟩
    let node : NodeInfo := ⟨macOf 10, version⟩
    0 ∈ node.version.val ∧ 15 + (encodeRegistry [node]).length ≤ rootPacketLen ∧
      ¬ RegisterRight (macOf 2) [node] 0 ⟨⟨fun _ => 0, []⟩, []⟩
        (registerOne version fun _ => 0) := by
  intro version node
  refine ⟨by decide, by decide, fun h => ?_⟩
  obtain ⟨packet, root, htrace, hread, -⟩ := h.decodes (by simp)
  have hsent := rootSendRegister_nodes (macOf 2) [node] 0
    ⟨true, true, fun _ => []⟩ ⟨⟨fun _ => 0, []⟩, []⟩ rfl (by simp)
  rw [registerOne, hsent] at htrace
  obtain ⟨hpacket, -⟩ := List.cons.inj htrace
  rw [← Event.send.inj hpacket] at hread
  revert hread
  decide

end EspMesh
