import EspMesh.Proof.RootStep

/-! # Photo packets arriving at the root

What one packet does to the buffer and the cursor, and how far a photo that arrives in order is
received correctly: from its second packet on, every packet lands in the slot behind the
preceding one.
-/

namespace EspMesh
set_option autoImplicit false
open ByteMem Mem StepRuns

/-! ## Packets and photos -/

/-- The `node_pic_t` number `count` of `maxCount`. -/
structure PicPacket (count maxCount : ℕ) (data : List UInt8) : Prop where
  length : data.length = childPacketLen
  count_lt : count < 65536
  max_lt : maxCount < 65536
  header : ∃ len ≤ packetBodyLen, data.take 6 = word16 count ++ word16 maxCount ++ word16 len

structure Photo where
  node : Mac
  packets : List (List UInt8)
  shape : ∀ i (h : i < packets.length), PicPacket (i + 1) packets.length packets[i]

/-- A packet of a picture whose bytes are all `b`. -/
def picOf (src : Mac) (count maxCount : ℕ) (b : UInt8) : MeshPacket where
  src := src
  type := .zero
  data := word16 count ++ word16 maxCount ++ word16 packetBodyLen ++
    List.replicate packetBodyLen b
  fits := by
    simp only [List.length_append, word16_length, List.length_replicate]
    exact le_refl childPacketLen

theorem picOf_shape (src : Mac) {count maxCount : ℕ} (b : UInt8) (hc : count < 65536)
    (hm : maxCount < 65536) : PicPacket count maxCount (picOf src count maxCount b).data :=
  ⟨by simp only [picOf, List.length_append, word16_length, List.length_replicate]; rfl, hc, hm,
    packetBodyLen, le_refl _, rfl⟩

def photoOfTwo (node : Mac) (b c : UInt8) : Photo where
  node := node
  packets := [(picOf node 1 2 b).data, (picOf node 2 2 c).data]
  shape := by
    intro i h
    match i with
    | 0 => exact picOf_shape node b (by simp) (by simp)
    | 1 => exact picOf_shape node c (by simp) (by simp)
    | i + 2 => exact absurd h (by simp)

section Stored
variable {count maxCount : ℕ} {data : List UInt8}

theorem PicPacket.load_take (h : PicPacket count maxCount data) (m : Mem) (a : ℕ) :
    (m.store a data).load a 6 = data.take 6 := by
  rw [← Mem.load_take _ _ childPacketLen _ (by simp), ← h.length, load_store_self]

theorem PicPacket.load16 (h : PicPacket count maxCount data) (m : Mem) (a : ℕ) :
    (m.store a data).load16 a = count ∧ (m.store a data).load16 (a + u16MaxCount) = maxCount := by
  obtain ⟨len, _, hhead⟩ := h.header
  have hload := h.load_take m a
  rw [hhead] at hload
  constructor
  · refine load16_word _ _ _ ?_ h.count_lt
    rw [← Mem.load_take _ _ 6 _ (by omega), hload]
    rfl
  · refine load16_word _ _ _ ?_ h.max_lt
    rw [← Mem.load_take _ _ 4 _ (by omega), u16MaxCount, ← Mem.load_drop _ a 6 2 (by omega), hload]
    rfl

/-- A photo packet is never mistaken for anything else: its data length is too small. -/
theorem PicPacket.not_normal (h : PicPacket count maxCount data) (m : Mem) (a : ℕ) :
    (m.store a data).load a packetHeaderLen ≠ mwifiAddrBroadcast.val := by
  obtain ⟨len, hlen, hhead⟩ := h.header
  rw [packetHeaderLen, h.load_take, hhead]
  intro hff
  have h4 := congrArg (fun l => (l.getD 4 0).toNat) hff
  have h5 := congrArg (fun l => (l.getD 5 0).toNat) hff
  simp only [word16, mwifiAddrBroadcast, List.cons_append, List.nil_append, List.getD_cons_succ,
    List.getD_cons_zero, UInt8.toNat_ofNat'] at h4 h5
  simp only [packetBodyLen, childPacketLen, packetHeaderLen] at hlen
  have h255 : (255 : UInt8).toNat = 255 := rfl
  omega

end Stored

/-! ## One arrival -/

def sentBlocks (trace : List Event) : List (List UInt8) :=
  trace.filterMap fun e => match e with
    | .send block => some block
    | _ => none

/-- What was done between two states, the latest first. -/
def newEvents (before after : List Event) : List Event := after.take (after.length - before.length)

theorem newEvents_append (new before : List Event) : newEvents before (new ++ before) = new := by
  rw [newEvents, List.length_append, Nat.add_sub_cancel, List.take_left]

def received (io : Io) (c : Cursor) (pkt : MeshPacket) : Io :=
  (io.modify fun m => m.store c.pServerCmd pkt.data).emit (.mwifiRootRead pkt.src pkt.data)

/-- One photo packet, with the state of the socket at that time. -/
def arrive (s : Io × Cursor) (a : Option ℕ × MeshPacket) : Io × Cursor :=
  doProcessImageData a.1 a.2.src (received s.1 s.2 a.2) s.2

theorem arrive_eq {count maxCount : ℕ} (s : Io × Cursor) (a : Option ℕ × MeshPacket)
    (h : PicPacket count maxCount a.2.data) :
    arrive s a =
      if maxCount > 400 then (received s.1 s.2 a.2, s.2.error)
      else if count = 1 then
        imageAccept a.1 a.2.src count maxCount
          ((received s.1 s.2 a.2).modify fun m => m.store 0 a.2.src.val) s.2.restart
      else imageAccept a.1 a.2.src count maxCount (received s.1 s.2 a.2) s.2 := by
  obtain ⟨hcount, hmax⟩ := h.load16 s.1.mem s.2.pServerCmd
  unfold arrive doProcessImageData
  simp only [received, Io.emit_mem, Io.modify_mem, hcount, hmax, photoPacketMaxCount]

/-! ## Blocks -/

/-- The node parts of the root packets of a block. -/
def blockParts (block : List UInt8) : List (List UInt8) :=
  (List.range (block.length / rootPacketLen)).map fun i =>
    (block.drop (rootPacketLen * i + tNode)).take childPacketLen

theorem blockParts_load (m : Mem) (n : ℕ) :
    blockParts (m.load 0 (rootPacketLen * n)) = nodeParts n m := by
  rw [blockParts, load_length, Nat.mul_div_cancel_left n (by simp)]
  refine List.map_congr_left fun i hi => ?_
  have hin : rootPacketLen * (i + 1) ≤ rootPacketLen * n :=
    Nat.mul_le_mul_left _ (List.mem_range.mp hi)
  simp only [rootPacketLen, childPacketLen, mwifiAddrLen, tNode] at hin ⊢
  rw [Mem.load_drop _ _ _ _ (by omega), Mem.load_take _ _ _ _ (by omega), Nat.zero_add]

/-! ## A photo in the buffer -/

/-- The first packets of a photo are in the buffer, and the cursor is behind them. -/
structure Holding (node : Mac) (parts : List (List UInt8)) (s : Io × Cursor) : Prop where
  start : s.2.bStartGetImage = true
  cursor : s.2.pRootMsg = rootPacketLen * parts.length
  cmd : s.2.pServerCmd = rootPacketLen * parts.length + tNode
  addr : s.1.mem.load 0 6 = node.val
  parts : nodeParts parts.length s.1.mem = parts

theorem nodeParts_received {k : ℕ} {m : Mem} {data : List UInt8}
    (h : data.length = childPacketLen) :
    nodeParts (k + 1) (m.store (rootPacketLen * k + tNode) data) = nodeParts k m ++ [data] := by
  have hself := load_store_self m (rootPacketLen * k + tNode) data
  rw [h] at hself
  rw [nodeParts_succ, hself, nodeParts_congr fun a _ ha => ?_]
  exact store_byte_off _ _ _ _ (.inl (by simp only [tNode]; omega))

section Next
variable {node : Mac} {parts : List (List UInt8)} {s : Io × Cursor}

theorem Holding.received_addr (h : Holding node parts s) (pkt : MeshPacket) :
    (received s.1 s.2 pkt).mem.load 0 6 = node.val := by
  rw [← h.addr]
  exact load_store_off _ _ _ _ _ (.inl (by rw [h.cmd]; simp))

theorem Holding.received_parts (h : Holding node parts s) (pkt : MeshPacket)
    (hlen : pkt.data.length = childPacketLen) :
    nodeParts (parts.length + 1) (received s.1 s.2 pkt).mem = parts ++ [pkt.data] := by
  simp only [received, Io.emit_mem, Io.modify_mem, h.cmd]
  rw [nodeParts_received hlen, h.parts]

theorem Holding.next (h : Holding node parts s) (a : Option ℕ × MeshPacket) {maxCount : ℕ}
    (hp : PicPacket (parts.length + 1) maxCount a.2.data) (hsrc : a.2.src = node)
    (hpos : 0 < parts.length) (hlt : parts.length + 1 < maxCount) (hmax : maxCount ≤ 400) :
    Holding node (parts ++ [a.2.data]) (arrive s a) ∧
      (arrive s a).1.trace = .mwifiRootRead a.2.src a.2.data :: s.1.trace := by
  have haddr := h.received_addr a.2
  rw [arrive_eq s a hp, if_neg (by omega), if_neg (by omega), imageAccept, h.start,
    if_neg (by simp), if_neg (by omega), hsrc, if_pos haddr]
  have hlen : (parts ++ [a.2.data]).length = parts.length + 1 := List.length_append
  refine ⟨⟨h.start, ?_, ?_, haddr, ?_⟩, by rw [← hsrc]; rfl⟩
  · rw [hlen, Nat.mul_succ, ← h.cursor]; rfl
  · rw [hlen, Nat.mul_succ, ← h.cursor]; rfl
  · rw [hlen, h.received_parts a.2 hp.length]

theorem Holding.last (h : Holding node parts s) (a : Option ℕ × MeshPacket)
    (hp : PicPacket (parts.length + 1) (parts.length + 1) a.2.data) (hpos : 0 < parts.length)
    (hmax : parts.length + 1 ≤ 400) :
    ∃ block, block.length = rootPacketLen * (parts.length + 1) ∧ block.take 6 = node.val ∧
      blockParts block = parts ++ [a.2.data] ∧
      arrive s a = (if a.1 = none then received s.1 s.2 a.2
        else (received s.1 s.2 a.2).emit (.send block), s.2.rewind) := by
  refine ⟨(received s.1 s.2 a.2).mem.load 0 (rootPacketLen * (parts.length + 1)),
    by simp, ?_, ?_, ?_⟩
  · rw [Mem.load_take _ _ _ _ (by simp; omega), h.received_addr]
  · rw [blockParts_load, h.received_parts a.2 hp.length]
  · rw [arrive_eq s a hp, if_neg (by omega), if_neg (by omega), imageAccept, h.start,
      if_neg (by simp), if_pos rfl]

end Next

/-! ## Packet 1 -/

/-- What slot 0 holds after packet 1: the packet only if it was received there. -/
def firstPart (s : Io × Cursor) (data : List UInt8) : List UInt8 :=
  if s.2.pRootMsg = 0 then data else s.1.mem.load tNode childPacketLen

theorem received_first {s : Io × Cursor} (hc : s.2.Aligned) (pkt : MeshPacket)
    (hlen : pkt.data.length = childPacketLen) :
    nodeParts 1 ((received s.1 s.2 pkt).mem.store 0 pkt.src.val) =
      [firstPart s pkt.data] := by
  obtain ⟨k, hk⟩ := hc.slot
  have haddr : ∀ m : Mem, (m.store 0 pkt.src.val).load tNode childPacketLen =
      m.load tNode childPacketLen := fun m =>
    load_store_off _ _ _ _ _ (.inr (by rw [pkt.src.2]; simp))
  have hone : ∀ m : Mem, nodeParts 1 m = [m.load tNode childPacketLen] := fun m => rfl
  rw [hone, haddr, firstPart]
  simp only [received, Io.emit_mem, Io.modify_mem, hc.cmd]
  split
  · next h0 =>
    have hself := load_store_self s.1.mem tNode pkt.data
    rw [hlen] at hself
    rw [h0, Nat.zero_add, hself]
  · next h0 =>
    rw [load_store_off _ _ _ _ _ (.inl ?_)]
    rw [hk] at h0 ⊢
    have : 0 < k := Nat.pos_of_ne_zero fun h => h0 (by rw [h, Nat.mul_zero])
    simp only [rootPacketLen, childPacketLen, mwifiAddrLen, tNode]
    omega

theorem received_own_addr (s : Io × Cursor) (pkt : MeshPacket) :
    ((received s.1 s.2 pkt).mem.store 0 pkt.src.val).load 0 6 = pkt.src.val := by
  have hself := load_store_self (received s.1 s.2 pkt).mem 0 pkt.src.val
  rwa [pkt.src.2] at hself

theorem arrive_first {s : Io × Cursor} (hc : s.2.Aligned) (a : Option ℕ × MeshPacket)
    {maxCount : ℕ} (hp : PicPacket 1 maxCount a.2.data) (hlt : 1 < maxCount)
    (hmax : maxCount ≤ 400) :
    Holding a.2.src [firstPart s a.2.data] (arrive s a) ∧
      (arrive s a).1.trace = .mwifiRootRead a.2.src a.2.data :: s.1.trace := by
  have haddr := received_own_addr s a.2
  rw [arrive_eq s a hp, if_neg (by omega), if_pos rfl, imageAccept,
    if_neg (by simp [Cursor.restart]), if_neg (by omega), Io.modify_mem, if_pos haddr]
  exact ⟨⟨rfl, rfl, rfl, haddr, received_first hc a.2 hp.length⟩, rfl⟩

theorem arrive_only {s : Io × Cursor} (hc : s.2.Aligned) (a : Option ℕ × MeshPacket)
    (hp : PicPacket 1 1 a.2.data) :
    ∃ block, block.length = rootPacketLen * 1 ∧ block.take 6 = a.2.src.val ∧
      blockParts block = [firstPart s a.2.data] ∧
      (arrive s a).1.trace = (if a.1 = none then [] else [.send block]) ++
        .mwifiRootRead a.2.src a.2.data :: s.1.trace ∧
      (arrive s a).2 = s.2.restart.rewind := by
  let m := (received s.1 s.2 a.2).mem.store 0 a.2.src.val
  refine ⟨m.load 0 (rootPacketLen * 1), by simp, ?_, ?_, ?_⟩
  · rw [Mem.load_take _ _ _ _ (by simp), received_own_addr]
  · rw [blockParts_load, received_first hc a.2 hp.length]
  · rw [arrive_eq s a hp, if_neg (by omega), if_pos rfl, imageAccept,
      if_neg (by simp [Cursor.restart]), if_pos rfl]
    dsimp only
    refine ⟨?_, rfl⟩
    split <;> rfl

end EspMesh
