import EspMesh.Proof.PhotoArrival
import Mathlib.Data.Set.Basic

/-! # Blocks made of the packets of several nodes

The function checks the sender of a packet only when the packet is neither the first nor the
last of its photo, and it never checks the number. A block is one photo of one node in every run
in which each packet is dropped by the function itself or follows the packets of its photo that were
accepted before it.

`photos` are the photos the nodes have taken. Without naming them "one photo" would say little:
packet 1 of one photo and packet 2 of another of the same node look like a photo of two packets.
-/

namespace EspMesh
set_option autoImplicit false
set_option maxRecDepth 20000
open ByteMem Mem StepRuns

section Photos
variable (photos : Set Photo)

/-- The block is one of the photos, all of whose packets have arrived. -/
def WholePhoto (trace : List Event) (block : List UInt8) : Prop :=
  ∃ photo ∈ photos, block.length = rootPacketLen * photo.packets.length ∧
    block.take 6 = photo.node.val ∧ blockParts block = photo.packets ∧
    ∀ data ∈ photo.packets, Event.mwifiRootRead photo.node data ∈ trace

def BlocksWhole (s : Io × Cursor) : Prop :=
  ∀ block, Event.send block ∈ s.1.trace → WholePhoto photos s.1.trace block

/-- The packet `p`, number `i` from zero of `photo`, comes in order: it is dropped, or it is the
first of its photo and received in slot 0 (or again what was accepted there), or the packets before
it are those that were accepted. -/
inductive InOrder (s : Io × Cursor) (accepted : List MeshPacket) (p : MeshPacket) (photo : Photo)
    (i : ℕ) : Prop
  | tooLong (h : 400 < photo.packets.length)
  | first (h : i = 0)
    (slot : s.2.pRootMsg = 0 ∨ (accepted.map MeshPacket.data).head? = some p.data)
  | notStarted (h : 0 < i) (start : s.2.bStartGetImage = false)
  | stranger (h : 0 < i) (notLast : i + 1 < photo.packets.length)
      (addr : s.1.mem.load 0 6 ≠ p.src.val)
  | next (h : 0 < i) (sender : ∀ q ∈ accepted, q.src = p.src)
      (parts : accepted.map MeshPacket.data = photo.packets.take i)

def PacketOf (p : MeshPacket) (photo : Photo) (i : ℕ) : Prop :=
  photo.node = p.src ∧ photo.packets[i]? = some p.data

def ArrivesInOrder (w : (Io × Cursor) × List MeshPacket) (a : Option ℕ × MeshPacket) : Prop :=
  ∃ photo ∈ photos, ∃ i, PacketOf a.2 photo i ∧ InOrder w.1 w.2 a.2 photo i

end Photos

/-! ## The accepted packets -/

/-- The two numbers in the header of a packet. -/
def packetCount (data : List UInt8) : ℕ := (Mem.store ⟨fun _ => 0, []⟩ 0 data).load16 0

def packetMaxCount (data : List UInt8) : ℕ := (Mem.store ⟨fun _ => 0, []⟩ 0 data).load16 u16MaxCount

theorem PicPacket.counts {count maxCount : ℕ} {data : List UInt8}
    (h : PicPacket count maxCount data) :
    packetCount data = count ∧ packetMaxCount data = maxCount :=
  h.load16 ⟨fun _ => 0, []⟩ 0

/-- The packets of the photo that is being received: packet 1 begins it, a packet with which the
cursor goes on is one more, and with the cursor back at slot 0 there is none. -/
def noteAccepted (accepted : List MeshPacket) (s : Io × Cursor) (a : Option ℕ × MeshPacket) :
    List MeshPacket :=
  if (arrive s a).2.pRootMsg = 0 then []
  else if packetMaxCount a.2.data ≤ 400 ∧ packetCount a.2.data = 1 then [a.2]
  else if (arrive s a).2.pRootMsg = s.2.pRootMsg then accepted
  else accepted ++ [a.2]

/-- The accepted packets are in the buffer, and their sender in slot 0. -/
inductive Buffered (s : Io × Cursor) (accepted : List MeshPacket) : Prop
  | nothing (h : accepted = []) (cursor : s.2.pRootMsg = 0)
  | photo (node : Mac) (h : Holding node (accepted.map MeshPacket.data) s)
      (sender : ∀ q ∈ accepted, q.src = node)

/-- What was accepted is in the buffer and has arrived. -/
structure BlockInvariant (photos : Set Photo) (w : (Io × Cursor) × List MeshPacket) : Prop where
  aligned : w.1.2.Aligned
  buffer : Buffered w.1 w.2
  arrived : ∀ q ∈ w.2, Event.mwifiRootRead q.src q.data ∈ w.1.1.trace
  blocks : BlocksWhole photos w.1

section Trace
variable {photos : Set Photo}

theorem WholePhoto.mono {trace trace' : List Event} {block : List UInt8}
    (h : WholePhoto photos trace block) (hsub : ∀ e ∈ trace, e ∈ trace') :
    WholePhoto photos trace' block := by
  obtain ⟨photo, hphoto, hlen, hnode, hparts, harr⟩ := h
  exact ⟨photo, hphoto, hlen, hnode, hparts, fun data hd => hsub _ (harr data hd)⟩

theorem BlocksWhole.read {s s' : Io × Cursor} {src : Mac} {data : List UInt8}
    (h : BlocksWhole photos s) (htrace : s'.1.trace = .mwifiRootRead src data :: s.1.trace) :
    BlocksWhole photos s' := by
  intro block hblock
  rw [htrace] at hblock ⊢
  rcases List.mem_cons.mp hblock with hb | hb
  · cases hb
  · exact (h block hb).mono fun e he => List.mem_cons_of_mem _ he

theorem BlocksWhole.send {s s' : Io × Cursor} {block : List UInt8} (h : BlocksWhole photos s)
    (htrace : s'.1.trace = .send block :: s.1.trace)
    (hwhole : WholePhoto photos s.1.trace block) : BlocksWhole photos s' := by
  intro b hb
  rw [htrace] at hb ⊢
  refine WholePhoto.mono ?_ fun e he => List.mem_cons_of_mem _ he
  rcases List.mem_cons.mp hb with hb | hb
  · rw [Event.send.inj hb]
    exact hwhole
  · exact h b hb

/-- The cursor is back at slot 0. -/
theorem BlockInvariant.atBase {io : Io} {c : Cursor} (h : BlocksWhole photos (io, c)) :
    BlockInvariant photos ((io, c.rewind), []) :=
  ⟨c.rewind_aligned, .nothing rfl rfl, nofun, h⟩

/-- A packet that is not accepted lies behind those that were. -/
theorem Holding.received {node : Mac} {parts : List (List UInt8)} {s : Io × Cursor}
    (h : Holding node parts s) (pkt : MeshPacket) {c : Cursor}
    (hstart : c.bStartGetImage = s.2.bStartGetImage) (hslot : c.pRootMsg = s.2.pRootMsg)
    (hcmd : c.pServerCmd = s.2.pServerCmd) : Holding node parts (received s.1 s.2 pkt, c) := by
  refine ⟨hstart.trans h.start, hslot.trans h.cursor, hcmd.trans h.cmd, h.received_addr pkt, ?_⟩
  refine (nodeParts_congr fun b _ hb => ?_).trans h.parts
  refine store_byte_off _ _ _ _ (.inl ?_)
  rw [h.cmd]
  omega

theorem Holding.head {node : Mac} {parts : List (List UInt8)} {s : Io × Cursor}
    (h : Holding node parts s) {data : List UInt8} (hhead : parts.head? = some data) :
    s.1.mem.load tNode childPacketLen = data := by
  obtain ⟨rest, rfl⟩ := List.head?_eq_some_iff.mp hhead
  have hparts := h.parts
  rw [List.length_cons, nodeParts, List.range_succ_eq_map, List.map_cons] at hparts
  exact (List.cons.inj hparts).1

end Trace

/-! ## One packet -/

section Step
variable {photos : Set Photo} {s : Io × Cursor} {photo : Photo} {i : ℕ}

theorem PacketOf.shape {p : MeshPacket} (h : PacketOf p photo i) :
    PicPacket (i + 1) photo.packets.length p.data ∧ i < photo.packets.length := by
  obtain ⟨hi, hget⟩ := List.getElem?_eq_some_iff.mp h.2
  exact ⟨hget ▸ photo.shape i hi, hi⟩

/-- A packet that is dropped is none of those accepted, and leaves them where they are. -/
theorem BlockInvariant.dropped {accepted : List MeshPacket}
    (h : BlockInvariant photos (s, accepted)) (a : Option ℕ × MeshPacket) {c : Cursor}
    (hc : c = s.2 ∨ c = s.2.error)
    (harrive : arrive s a = (received s.1 s.2 a.2, c))
    (hnot : ¬ (packetMaxCount a.2.data ≤ 400 ∧ packetCount a.2.data = 1)) :
    BlockInvariant photos (observe arrive noteAccepted (s, accepted) a) := by
  have hblocks : BlocksWhole photos (received s.1 s.2 a.2, c) := h.blocks.read rfl
  have hal : c.Aligned := by
    rcases hc with rfl | rfl
    · exact h.aligned
    · exact h.aligned.error
  unfold observe noteAccepted
  dsimp only
  rw [harrive, if_neg hnot]
  by_cases hbase : c.pRootMsg = 0
  · rw [if_pos hbase]
    exact ⟨hal, .nothing rfl hbase, nofun, hblocks⟩
  · -- The cursor is where it was.
    have hstay : c.bStartGetImage = s.2.bStartGetImage ∧ c.pRootMsg = s.2.pRootMsg ∧
        c.pServerCmd = s.2.pServerCmd := by
      rcases hc with rfl | rfl
      · exact ⟨rfl, rfl, rfl⟩
      · unfold Cursor.error at hbase ⊢
        split
        · rename_i hmany
          rw [if_pos hmany] at hbase
          exact absurd rfl hbase
        · exact ⟨rfl, rfl, rfl⟩
    obtain ⟨hstart, hslot, hcmd⟩ := hstay
    rw [if_neg hbase, if_pos hslot]
    refine ⟨hal, ?_, fun q hq => List.mem_cons_of_mem _ (h.arrived q hq), hblocks⟩
    cases h.buffer with
    | nothing hnil hzero => exact absurd (hslot.trans hzero) hbase
    | photo node hhold hsender =>
      exact .photo node (hhold.received a.2 hstart hslot hcmd) hsender

/-- Packets that were accepted in order are in the buffer behind the sender's address. -/
theorem BlockInvariant.holding {accepted : List MeshPacket}
    (h : BlockInvariant photos (s, accepted)) (hsome : accepted ≠ []) {src : Mac}
    (hsender : ∀ q ∈ accepted, q.src = src) : Holding src (accepted.map MeshPacket.data) s := by
  cases h.buffer with
  | nothing hnil _ => exact absurd hnil hsome
  | photo node hhold hnode =>
    obtain ⟨q, hq⟩ := List.exists_mem_of_ne_nil accepted hsome
    rw [← hsender q hq, hnode q hq]
    exact hhold

/-- A packet is accepted. -/
theorem BlockInvariant.accept {accepted accepted' : List MeshPacket} {s' : Io × Cursor}
    (h : BlockInvariant photos (s, accepted)) {p : MeshPacket}
    (hhold : Holding p.src (accepted'.map MeshPacket.data) s')
    (hsender : ∀ q ∈ accepted', q.src = p.src)
    (htrace : s'.1.trace = .mwifiRootRead p.src p.data :: s.1.trace)
    (hmem : ∀ q ∈ accepted', q ∈ accepted ∨ q = p) : BlockInvariant photos (s', accepted') := by
  refine ⟨⟨⟨_, hhold.cursor⟩, by rw [hhold.cmd, hhold.cursor], .inr hhold.start⟩,
    .photo p.src hhold hsender, fun q hq => ?_, h.blocks.read htrace⟩
  rw [htrace]
  rcases hmem q hq with hold | rfl
  · exact List.mem_cons_of_mem _ (h.arrived q hold)
  · exact List.mem_cons_self ..

theorem PacketOf.packets_eq {p : MeshPacket} (h : PacketOf p photo i)
    (hlast : i + 1 = photo.packets.length) : photo.packets = photo.packets.take i ++ [p.data] := by
  obtain ⟨hi, hget⟩ := List.getElem?_eq_some_iff.mp h.2
  calc photo.packets = photo.packets.take (i + 1) := (List.take_of_length_le (by omega)).symm
    _ = photo.packets.take i ++ [photo.packets[i]] := (List.take_append_getElem hi).symm
    _ = photo.packets.take i ++ [p.data] := by rw [hget]

theorem BlockInvariant.first {accepted : List MeshPacket} (h : BlockInvariant photos (s, accepted))
    (a : Option ℕ × MeshPacket) (hphoto : photo ∈ photos) (hp : PacketOf a.2 photo 0)
    (hmax : photo.packets.length ≤ 400)
    (hslot : s.2.pRootMsg = 0 ∨ (accepted.map MeshPacket.data).head? = some a.2.data) :
    BlockInvariant photos (observe arrive noteAccepted (s, accepted) a) := by
  obtain ⟨hshape, hpos⟩ := hp.shape
  have hfirst : firstPart s a.2.data = a.2.data := by
    unfold firstPart
    split
    · rfl
    · next hne =>
      have hhead := hslot.resolve_left hne
      cases h.buffer with
      | nothing hnil hzero => exact absurd hzero hne
      | photo node hhold _ => exact hhold.head hhead
  unfold observe noteAccepted
  dsimp only
  by_cases hone : photo.packets.length = 1
  · have hpackets : photo.packets = [a.2.data] := hp.packets_eq hone.symm
    rw [hone] at hshape
    obtain ⟨block, hlen, hnode, hparts, htrace, hcur⟩ := arrive_only h.aligned a hshape
    have hwhole : WholePhoto photos (received s.1 s.2 a.2).trace block := by
      refine ⟨photo, hphoto, by rw [hlen, hone], by rw [hnode, hp.1],
        by rw [hparts, hfirst, hpackets], ?_⟩
      rw [hpackets, hp.1]
      exact List.forall_mem_singleton.mpr (List.mem_cons_self ..)
    have hread : BlocksWhole photos (received s.1 s.2 a.2, s.2) := h.blocks.read rfl
    have hall : BlocksWhole photos ((arrive s a).1, s.2.restart) := by
      by_cases hsock : a.1 = none
      · rw [if_pos hsock] at htrace
        exact h.blocks.read htrace
      · rw [if_neg hsock] at htrace
        exact hread.send htrace hwhole
    rw [show arrive s a = ((arrive s a).1, s.2.restart.rewind) from Prod.ext rfl hcur]
    exact BlockInvariant.atBase hall
  · obtain ⟨hhold, htrace⟩ := arrive_first h.aligned a hshape (by omega) hmax
    rw [hfirst] at hhold
    have hslot : (arrive s a).2.pRootMsg ≠ 0 := by
      rw [hhold.cursor]
      exact Nat.succ_ne_zero _
    rw [if_neg hslot, if_pos ⟨hshape.counts.2.trans_le hmax, hshape.counts.1⟩]
    exact h.accept hhold (List.forall_mem_singleton.mpr rfl) htrace
      (List.forall_mem_singleton.mpr (.inr rfl))

section Next
variable {accepted : List MeshPacket} (h : BlockInvariant photos (s, accepted))
  (a : Option ℕ × MeshPacket) (hp : PacketOf a.2 photo i) (hpos : 0 < i)
  (hsender : ∀ q ∈ accepted, q.src = a.2.src)
  (hparts : accepted.map MeshPacket.data = photo.packets.take i)
include h hp hpos hsender hparts

/-- The packets in front of packet `i` of the photo are in the buffer. -/
theorem BlockInvariant.holding_before :
    accepted.length = i ∧ Holding a.2.src (accepted.map MeshPacket.data) s := by
  obtain ⟨-, hi⟩ := hp.shape
  have hlen : accepted.length = i := by
    have := congrArg List.length hparts
    rw [List.length_map, List.length_take] at this
    omega
  have hsome : accepted ≠ [] := by
    rintro rfl
    exact hpos.ne hlen
  exact ⟨hlen, h.holding hsome hsender⟩

theorem BlockInvariant.last (hmax : photo.packets.length ≤ 400) (hphoto : photo ∈ photos)
    (hlast : i + 1 = photo.packets.length) :
    BlockInvariant photos (observe arrive noteAccepted (s, accepted) a) := by
  obtain ⟨hshape, -⟩ := hp.shape
  obtain ⟨hlen, hhold⟩ := h.holding_before a hp hpos hsender hparts
  have hall : photo.packets = accepted.map MeshPacket.data ++ [a.2.data] := by
    rw [hparts]
    exact hp.packets_eq hlast
  have hsh : PicPacket ((accepted.map MeshPacket.data).length + 1)
      ((accepted.map MeshPacket.data).length + 1) a.2.data := by
    rw [List.length_map, hlen]
    exact hlast ▸ hshape
  obtain ⟨block, hblock, hnode, hbp, harr⟩ :=
    hhold.last a hsh (by simpa [hlen] using hpos) (by rw [List.length_map]; omega)
  have hwhole : WholePhoto photos (received s.1 s.2 a.2).trace block := by
    refine ⟨photo, hphoto, by rw [hblock, List.length_map, hlen, hlast], by rw [hnode, hp.1],
      by rw [hbp, ← hall], ?_⟩
    rw [hall, hp.1]
    refine List.forall_mem_append.mpr ⟨fun data hd => ?_,
      List.forall_mem_singleton.mpr (List.mem_cons_self ..)⟩
    obtain ⟨q, hq, rfl⟩ := List.mem_map.mp hd
    rw [← hsender q hq]
    exact List.mem_cons_of_mem _ (h.arrived q hq)
  have hread : BlocksWhole photos (received s.1 s.2 a.2, s.2) := h.blocks.read rfl
  unfold observe noteAccepted
  dsimp only
  rw [harr]
  refine BlockInvariant.atBase (c := s.2) ?_
  split
  · exact hread
  · exact hread.send rfl hwhole

theorem BlockInvariant.middle (hmax : photo.packets.length ≤ 400)
    (hlast : i + 1 ≠ photo.packets.length) :
    BlockInvariant photos (observe arrive noteAccepted (s, accepted) a) := by
  obtain ⟨hshape, hi⟩ := hp.shape
  obtain ⟨hlen, hhold⟩ := h.holding_before a hp hpos hsender hparts
  have hsh : PicPacket ((accepted.map MeshPacket.data).length + 1) photo.packets.length
      a.2.data := by
    rw [List.length_map, hlen]
    exact hshape
  obtain ⟨hnext, htrace⟩ := hhold.next a hsh rfl (by simpa [hlen] using hpos)
    (by rw [List.length_map]; omega) hmax
  rw [← List.map_singleton (f := MeshPacket.data), ← List.map_append] at hnext
  have hbefore := hhold.cursor
  have hslot := hnext.cursor
  rw [List.length_map, hlen] at hbefore
  rw [List.length_map, List.length_append, List.length_singleton, hlen] at hslot
  have hcount := hshape.counts.1
  unfold observe noteAccepted
  dsimp only
  rw [if_neg (by rw [hslot]; exact Nat.succ_ne_zero _), if_neg (by omega),
    if_neg (by rw [hslot, hbefore, Nat.mul_succ]; simp)]
  refine h.accept hnext (List.forall_mem_append.mpr ⟨hsender, List.forall_mem_singleton.mpr rfl⟩)
    htrace ?_
  exact List.forall_mem_append.mpr ⟨fun _ => .inl, List.forall_mem_singleton.mpr (.inr rfl)⟩

end Next

theorem arrive_invariant (w : (Io × Cursor) × List MeshPacket) (a : Option ℕ × MeshPacket)
    (h : BlockInvariant photos w) (hin : ArrivesInOrder photos w a) :
    BlockInvariant photos (observe arrive noteAccepted w a) := by
  obtain ⟨s, accepted⟩ := w
  obtain ⟨photo, hphoto, i, hp, hin⟩ := hin
  obtain ⟨hshape, hi⟩ := hp.shape
  obtain ⟨hcount, hmaxCount⟩ := hshape.counts
  by_cases hmax : 400 < photo.packets.length
  · exact h.dropped a (.inr rfl) (by rw [arrive_eq s a hshape, if_pos hmax]) (by omega)
  · rw [Nat.not_lt] at hmax
    cases hin with
    | tooLong hlong => omega
    | first h0 hslot =>
      rw [h0] at hp
      exact h.first a hphoto hp hmax hslot
    | notStarted hpos hstart =>
      refine h.dropped a (.inl rfl) ?_ (by omega)
      rw [arrive_eq s a hshape, if_neg (by omega), if_neg (by omega), imageAccept, hstart,
        if_pos (by rfl)]
    | stranger hpos hnot haddr =>
      by_cases hstart : s.2.bStartGetImage = true
      · have haddr' : (received s.1 s.2 a.2).mem.load 0 6 ≠ a.2.src.val := by
          rw [show (received s.1 s.2 a.2).mem.load 0 6 = s.1.mem.load 0 6 from
            load_store_off _ _ _ _ _ (.inl (by rw [h.aligned.cmd]; simp))]
          exact haddr
        refine h.dropped a (.inr rfl) ?_ (by omega)
        rw [arrive_eq s a hshape, if_neg (by omega), if_neg (by omega), imageAccept, hstart,
          if_neg (by simp), if_neg (by omega), if_neg haddr']
      · refine h.dropped a (.inl rfl) ?_ (by omega)
        rw [arrive_eq s a hshape, if_neg (by omega), if_neg (by omega), imageAccept,
          if_pos (by simpa using hstart)]
    | next hpos hsender hparts =>
      by_cases hlast : i + 1 = photo.packets.length
      · exact h.last a hp hpos hsender hparts hmax hphoto hlast
      · exact h.middle a hp hpos hsender hparts hmax hlast

end Step

/-! ## All packets -/

/-- The image function as `root_mesh_read_task` starts: the buffer holds anything. -/
def imageStart (bytes : ℕ → UInt8) : Io × Cursor := (⟨⟨bytes, []⟩, []⟩, ⟨0, false, 0, tNode⟩)

/-- **Blocks.** Whatever photos the packets come from: in every run in which each packet is
dropped or comes in order, every block sent so far is one of these photos, in every state. -/
theorem photo_blocks (photos : Set Photo) (bytes : ℕ → UInt8)
    (as : List (Option ℕ × MeshPacket))
    (h : Along (observe arrive noteAccepted) (ArrivesInOrder photos) (imageStart bytes, []) as) :
    Through arrive (BlocksWhole photos) (imageStart bytes) as := by
  refine (through_observe noteAccepted (imageStart bytes, []) as).mp ?_
  refine through_of_invariant_along arrive_invariant (fun w hw => hw.blocks) ?_ h
  refine BlockInvariant.atBase (c := ⟨0, false, 0, tNode⟩) fun block hb => ?_
  cases hb

/-- A packet 2 that nothing has begun, then the photo of another node. -/
theorem photo_blocks_two :
    let photos : Set Photo := {photoOfTwo (macOf 10) 7 8, photoOfTwo (macOf 11) 7 8}
    Through arrive (BlocksWhole photos) (imageStart fun _ => 0)
      [(some 3, picOf (macOf 11) 2 2 8), (some 3, picOf (macOf 10) 1 2 7),
        (some 3, picOf (macOf 10) 2 2 8)] :=
  photo_blocks _ (fun _ => 0) _
    ⟨⟨photoOfTwo (macOf 11) 7 8, .inr rfl, 1, ⟨rfl, rfl⟩, .notStarted (by decide) rfl⟩,
      ⟨photoOfTwo (macOf 10) 7 8, .inl rfl, 0, ⟨rfl, rfl⟩, .first rfl (.inl (by decide +kernel))⟩,
      ⟨photoOfTwo (macOf 10) 7 8, .inl rfl, 1, ⟨rfl, rfl⟩,
        .next (by decide) (by decide +kernel) (by decide +kernel)⟩, trivial⟩

/-- The last packet needs no right address: with one from another node, the block is sent. -/
theorem Holding.last_of_stranger (photos : Set Photo) {node : Mac} {parts : List (List UInt8)}
    {s : Io × Cursor} (h : Holding node parts s) (a : Option ℕ × MeshPacket)
    (hp : PicPacket (parts.length + 1) (parts.length + 1) a.2.data) (hpos : 0 < parts.length)
    (hmax : parts.length + 1 ≤ 400) (hsock : a.1 ≠ none) (hsrc : a.2.src ≠ node)
    (hnew : Event.mwifiRootRead node a.2.data ∉ s.1.trace) :
    ¬ BlocksWhole photos (arrive s a) := by
  obtain ⟨block, _, hnode, hparts, harr⟩ := h.last a hp hpos hmax
  have htrace : (arrive s a).1.trace =
      .send block :: .mwifiRootRead a.2.src a.2.data :: s.1.trace := by
    rw [harr, if_neg hsock]
    rfl
  intro hwhole
  obtain ⟨photo, _, _, hnode', hpackets, hread⟩ := hwhole block (by rw [htrace]; simp)
  have hphoto : photo.node = node := Subtype.ext (hnode'.symm.trans hnode)
  have hmem := hread a.2.data (by rw [← hpackets, hparts]; simp)
  rw [htrace, hphoto] at hmem
  rcases List.mem_cons.mp hmem with h1 | hmem
  · cases h1
  · rcases List.mem_cons.mp hmem with h2 | h3
    · exact hsrc (Event.mwifiRootRead.inj h2).1.symm
    · exact hnew h3

/-- Packet 1 of a photo of one node, then packet 2 of a photo of another: the block is made of
both. -/
theorem last_packet_of_stranger :
    let a : Mac := macOf 10
    let b : Mac := macOf 11
    let as := [(some 3, picOf a 1 2 7), (some 3, picOf b 2 2 8)]
    let photos : Set Photo := {photoOfTwo a 7 8, photoOfTwo b 7 8}
    (∀ p ∈ as, ∃ photo ∈ photos, ∃ i, PacketOf p.2 photo i) ∧
      ¬ BlocksWhole photos (run arrive (imageStart fun _ => 0) as) := by
  intro a b as photos
  constructor
  · intro p hp
    rcases List.mem_cons.mp hp with rfl | hp
    · exact ⟨photoOfTwo a 7 8, .inl rfl, 0, rfl, rfl⟩
    · rw [List.mem_singleton.mp hp]
      exact ⟨photoOfTwo b 7 8, .inr rfl, 1, rfl, rfl⟩
  · have hp1 : PicPacket 1 2 (picOf a 1 2 7).data := picOf_shape a 7 (by decide) (by decide)
    have hp2 : PicPacket 2 2 (picOf b 2 2 8).data := picOf_shape b 8 (by decide) (by decide)
    have hdata : (picOf b 2 2 8).data ≠ (picOf a 1 2 7).data := fun h =>
      absurd (congrArg (fun l => l.getD 0 0) h) (by decide)
    obtain ⟨hhold, htrace⟩ := arrive_first (s := imageStart fun _ => 0)
      (Cursor.rewind_aligned ⟨0, false, 0, tNode⟩) (some 3, picOf a 1 2 7) hp1 (by decide)
      (by decide)
    have hbad := hhold.last_of_stranger photos (some 3, picOf b 2 2 8) hp2 Nat.one_pos (by decide)
      (by decide) (by decide) fun hmem => by
        rw [htrace] at hmem
        exact hdata (Event.mwifiRootRead.inj (List.mem_singleton.mp hmem)).2
    simpa only [as, run_cons, run_nil] using hbad

end EspMesh
