import EspMesh.Proof.PhotoCursor
import EspMesh.Proof.PhotoFrame
import EspMesh.Proof.PingRegistration

/-! # The senders of a photo's packets

The image function writes one address, that of slot 0. The packets behind it go out with the
address their slot happens to hold, which is right only where other traffic of the same node
has left it there.
-/

namespace EspMesh
set_option autoImplicit false
set_option maxRecDepth 20000
open ByteMem Mem StepRuns

/-! ## Whose packet is in a slot -/

abbrev Occupants := ℕ → Option Mac

def occupy (occ : Occupants) (c : Cursor) (src : Mac) : Occupants :=
  Function.update occ (c.pServerCmd / rootPacketLen) (some src)

/-- The sender of the packet last read into each slot. -/
def noteOccupant (occ : Occupants) (s : Sys) : SysEvent → Occupants
  | .rootRead (some pkt) _ => if s.root.pc = .reading then occupy occ s.cur pkt.src else occ
  | _ => occ

/-- Each packet of a block that the step sends names the node whose packet it is. -/
def NamesSenders (w : Sys × Occupants) (ev : SysEvent) : Prop :=
  ∀ block, PhotoSent w.1 ev block → ∀ i, rootPacketLen * (i + 1) ≤ block.length →
    ∃ src, noteOccupant w.2 w.1 ev i = some src ∧ (block.drop (rootPacketLen * i)).take 6 = src.val

/-- A photo packet comes into a slot that holds its sender's address, if the photo goes on with
it; a first packet is put into slot 0, or over another packet of its sender; and a last packet
says no more packets than there are. -/
structure AddressInPlace (s : Io × Cursor) (pkt : MeshPacket) : Prop where
  first : picMax s pkt ≤ photoPacketMaxCount → picCount s pkt = 1 →
    s.2.pRootMsg = 0 ∨ s.1.mem.load 0 6 = pkt.src.val
  next : Continues s pkt → s.1.mem.load s.2.pRootMsg 6 = pkt.src.val
  last : picMax s pkt ≤ photoPacketMaxCount → picCount s pkt = picMax s pkt →
    picCount s pkt ≠ 1 → s.2.bStartGetImage = true →
    rootPacketLen * picCount s pkt ≤ s.2.pRootMsg ∨
      rootPacketLen * picCount s pkt = s.2.pRootMsg + rootPacketLen ∧
        s.1.mem.load s.2.pRootMsg 6 = pkt.src.val

/-- The addresses are in place for a photo packet; and a ping, which is built in slot 0, does not
reach the address of a slot in front of the cursor. -/
def SenderInPlace (s : Sys) (ev : SysEvent) : Prop :=
  (PingDue s ev → s.cur.pRootMsg ≤ rootPacketLen ∨
    tNode + 16 + 6 * s.w.nodes.length ≤ rootPacketLen) ∧
  ∀ pkt ∈ photoArrival s ev, AddressInPlace (s.io, s.cur) pkt

/-! ## Slots with the address of their occupant -/

/-- The slots that start in front of `p` hold the address of their occupant. -/
def SlotsNamed (occ : Occupants) (m : Mem) (p : ℕ) : Prop :=
  ∀ i, rootPacketLen * i < p → ∃ src, occ i = some src ∧ m.load (rootPacketLen * i) 6 = src.val

theorem SlotsNamed.zero (occ : Occupants) (m : Mem) : SlotsNamed occ m 0 :=
  fun _ h => absurd h (Nat.not_lt_zero _)

theorem SlotsNamed.congr {occ occ' : Occupants} {m m' : Mem} {p : ℕ} (h : SlotsNamed occ m p)
    (hocc : ∀ i, rootPacketLen * i < p → occ' i = occ i)
    (hm : ∀ i, rootPacketLen * i < p →
      m'.load (rootPacketLen * i) 6 = m.load (rootPacketLen * i) 6) : SlotsNamed occ' m' p := by
  intro i hi
  rw [hocc i hi, hm i hi]
  exact h i hi

theorem SlotsNamed.push {occ : Occupants} {m : Mem} {k : ℕ} {src : Mac}
    (h : SlotsNamed occ m (rootPacketLen * k)) (hocc : occ k = some src)
    (hm : m.load (rootPacketLen * k) 6 = src.val) : SlotsNamed occ m (rootPacketLen * (k + 1)) := by
  intro i hi
  have hle : i ≤ k := Nat.lt_succ_iff.mp (Nat.lt_of_mul_lt_mul_left hi)
  rcases Nat.lt_or_eq_of_le hle with hlt | rfl
  · exact h i (Nat.mul_lt_mul_of_pos_left hlt (by simp))
  · exact ⟨src, hocc, hm⟩

/-- The address of a slot in front of slot `k` lies in front of slot `k`. -/
theorem slot_addr_below {i k : ℕ} (h : rootPacketLen * i < rootPacketLen * k) :
    rootPacketLen * i + 6 ≤ rootPacketLen * k := by
  have hik : i + 1 ≤ k := Nat.lt_of_mul_lt_mul_left h
  have := Nat.mul_le_mul_left rootPacketLen hik
  simp only [rootPacketLen, childPacketLen, mwifiAddrLen] at *
  omega

theorem SlotsNamed.below {occ : Occupants} {m m' : Mem} {k : ℕ}
    (h : SlotsNamed occ m (rootPacketLen * k)) (hm : SameBelow (rootPacketLen * k) m m') :
    SlotsNamed occ m' (rootPacketLen * k) :=
  h.congr (fun _ _ => rfl) fun _ hi => hm.load (slot_addr_below hi)

theorem SlotsNamed.block {occ : Occupants} {m : Mem} {n : ℕ}
    (h : SlotsNamed occ m (rootPacketLen * n)) (i : ℕ)
    (hi : rootPacketLen * (i + 1) ≤ (m.load 0 (rootPacketLen * n)).length) :
    ∃ src, occ i = some src ∧
      ((m.load 0 (rootPacketLen * n)).drop (rootPacketLen * i)).take 6 = src.val := by
  rw [load_length] at hi
  have hlt : rootPacketLen * i < rootPacketLen * n := by
    simp only [rootPacketLen, childPacketLen, mwifiAddrLen] at *
    omega
  rw [Mem.load_drop _ _ _ _ hlt.le, Mem.load_take _ _ _ _ (by have := slot_addr_below hlt; omega),
    Nat.zero_add]
  exact h i hlt

/-! ## What one photo packet does to the addresses -/

section Arrival
variable {occ : Occupants} {s : Io × Cursor} (pkt : MeshPacket)

theorem occupy_apply {c : Cursor} (hc : c.Aligned) {k : ℕ} (hk : c.pRootMsg = rootPacketLen * k)
    (src : Mac) (i : ℕ) : occupy occ c src i = if i = k then some src else occ i := by
  have hslot : c.pServerCmd / rootPacketLen = k := by
    rw [hc.cmd, hk, Nat.mul_add_div (by simp), Nat.div_eq_of_lt (by simp), Nat.add_zero]
  rw [occupy, hslot, Function.update_apply]

theorem received_below (hc : s.2.Aligned) :
    SameBelow (s.2.pRootMsg + 6) s.1.mem (received s.1 s.2 pkt).mem :=
  (SameBelow.refl _ _).store _ hc.cmd.ge

theorem SlotsNamed.received (h : SlotsNamed occ s.1.mem s.2.pRootMsg) (hc : s.2.Aligned) :
    SlotsNamed (occupy occ s.2 pkt.src) (received s.1 s.2 pkt).mem s.2.pRootMsg := by
  obtain ⟨k, hk⟩ := hc.slot
  rw [hk] at h ⊢
  refine (h.below ((received_below pkt hc).mono (by omega))).congr (fun i hi => ?_) fun _ _ => rfl
  rw [occupy_apply hc hk, if_neg]
  rintro rfl
  exact lt_irrefl _ hi

/-- The packet is in the slot of its sender's address. -/
theorem SlotsNamed.stored (h : SlotsNamed occ s.1.mem s.2.pRootMsg) (hc : s.2.Aligned)
    (haddr : s.1.mem.load s.2.pRootMsg 6 = pkt.src.val) :
    SlotsNamed (occupy occ s.2 pkt.src) (EspMesh.received s.1 s.2 pkt).mem
      (s.2.pRootMsg + rootPacketLen) := by
  obtain ⟨k, hk⟩ := hc.slot
  have hrecv := h.received pkt hc
  rw [hk] at hrecv
  rw [hk, ← Nat.mul_succ]
  refine hrecv.push (by rw [occupy_apply hc hk, if_pos rfl]) ?_
  rw [← hk, (received_below pkt hc).load (le_refl _), haddr]

theorem SlotsNamed.first (h : SlotsNamed occ s.1.mem s.2.pRootMsg) (hc : s.2.Aligned)
    (hcount : picCount s pkt = 1)
    (hplace : s.2.pRootMsg = 0 ∨ s.1.mem.load 0 6 = pkt.src.val) :
    SlotsNamed (occupy occ s.2 pkt.src) (begun s pkt).1.mem (rootPacketLen * 1) := by
  have hocc : occupy occ s.2 pkt.src 0 = some pkt.src := by
    obtain ⟨k, hk⟩ := hc.slot
    rw [occupy_apply hc hk]
    split
    · rfl
    · next hk0 =>
      -- The packet in slot 0 is an older one, of the same sender.
      have hpos : rootPacketLen * 0 < s.2.pRootMsg := by
        rw [hk]
        exact Nat.mul_lt_mul_of_pos_left (Nat.pos_of_ne_zero (Ne.symm hk0)) (by simp)
      obtain ⟨src, hsrc, hload⟩ := h 0 hpos
      rw [Nat.mul_zero] at hload hpos
      rw [hplace.resolve_left (by omega)] at hload
      rw [hsrc, Subtype.ext hload]
  refine (SlotsNamed.zero _ _).push (k := 0) hocc ?_
  rw [begun, if_pos hcount, Nat.mul_zero]
  exact received_own_addr s pkt

end Arrival

/-! ## One step -/

theorem rootPing_byte (e : RootEnv) (s : Sys) (h : s.root.pPingMsg = tNode) (a : ℕ)
    (ha : a < tNode ∨ tNode + 16 + 6 * s.w.nodes.length ≤ a) :
    (rootPing e s).io.mem.byte a = s.io.mem.byte a := by
  unfold rootPing
  split
  · rfl
  · simp only [rootSendPing, Io.emit_mem, Io.modify_mem, h]
    rcases ha with ha | ha
    · rw [buildPing, store_byte_off _ _ _ _ (.inl (by omega)),
        store_byte_off _ _ _ _ (.inl (by omega)), busHeader_byte_off _ _ _ _ _ (.inl ha),
        pingEntries_byte_off _ _ _ _ _ (.inl (by omega))]
    · rw [buildPing_byte _ _ _ _ _ _ (by omega), pingEntries_byte_off _ _ _ _ _ (.inr (by omega))]

/-- Slot 0's address is in front of the ping; every other one is behind it, if there is one. -/
theorem rootPing_addresses {s : Sys} (e : RootEnv) (h : s.root.pPingMsg = tNode) {i : ℕ}
    (hi : rootPacketLen * i < s.cur.pRootMsg) (hping : s.cur.pRootMsg ≤ rootPacketLen ∨
      tNode + 16 + 6 * s.w.nodes.length ≤ rootPacketLen) :
    (rootPing e s).io.mem.load (rootPacketLen * i) 6 = s.io.mem.load (rootPacketLen * i) 6 := by
  refine (load_eq_iff _ _ _ _ _).mpr fun j hj => rootPing_byte e s h _ ?_
  cases i with
  | zero => exact .inl (by simp only [tNode]; omega)
  | succ i =>
    rw [Nat.mul_succ] at hi ⊢
    exact .inr (by omega)

/-- A step without a photo packet leaves the addresses of the slots in front of the cursor alone,
if the ping does not reach them. -/
theorem step_addresses {s : Sys} {ev : SysEvent} (hs : RootInvariant s)
    (h : photoArrival s ev = none)
    (hping : PingDue s ev → s.cur.pRootMsg ≤ rootPacketLen ∨
      tNode + 16 + 6 * s.w.nodes.length ≤ rootPacketLen)
    (i : ℕ) (hi : rootPacketLen * i < s.cur.pRootMsg) :
    (s.step ev).io.mem.load (rootPacketLen * i) 6 = s.io.mem.load (rootPacketLen * i) 6 := by
  obtain ⟨k, hk⟩ := hs.aligned.slot
  have hin : rootPacketLen * i + 6 ≤ s.cur.pRootMsg := by
    rw [hk] at hi ⊢
    exact slot_addr_below hi
  by_cases hworks : RootWorks s ev
  · cases ev with
    | rootTop e =>
      have hpc : s.root.pc = .top := hworks
      obtain ⟨-, -, hon, hoff⟩ := rootTop_spec e s hs.aligned
      simp only [Sys.step, if_pos hpc]
      by_cases hrun : e.connected = true ∧ e.isRoot = true
      · have hsame : (rootPing e s).io.mem.load (rootPacketLen * i) 6 =
            s.io.mem.load (rootPacketLen * i) 6 := by
          by_cases hdue : PingDue s (.rootTop e)
          · exact rootPing_addresses e hs.ping hi (hping hdue)
          · rw [rootPing_quiet hpc hrun hdue]
        rw [(hon hrun.1 hrun.2).load hin, hsame]
      · rw [hoff hrun]
    | rootRead pkt e =>
      have hpc : s.root.pc = .reading := hworks
      simp only [Sys.step, if_pos hpc]
      exact (rootRead_other hs.aligned hpc h).2.load hin
    | rootStart sqmsg | tcpStart sqmsg | tcpTurn e | otaTask j e => exact hworks.elim
  · rw [step_mem_of_not_rootWorks hworks]

/-- Every slot in front of the cursor names its occupant. -/
structure SendersKnown (w : Sys × Occupants) : Prop where
  root : RootInvariant w.1
  slots : SlotsNamed w.2 w.1.io.mem w.1.cur.pRootMsg

theorem noteOccupant_photo {occ : Occupants} {s : Sys} {ev : SysEvent} {pkt : MeshPacket}
    (h : photoArrival s ev = some pkt) : noteOccupant occ s ev = occupy occ s.cur pkt.src := by
  unfold photoArrival at h
  split at h
  · split at h
    · next hif =>
      cases h
      exact if_pos hif.1
    · cases h
  · cases h

theorem noteOccupant_below {occ : Occupants} {s : Sys} (hs : s.cur.Aligned) (ev : SysEvent) (i : ℕ)
    (hi : rootPacketLen * i < s.cur.pRootMsg) : noteOccupant occ s ev i = occ i := by
  obtain ⟨k, hk⟩ := hs.slot
  unfold noteOccupant
  split
  · next pkt e =>
    split
    · rw [occupy_apply hs hk, if_neg]
      rintro rfl
      omega
    · rfl
  · rfl

theorem step_known (w : Sys × Occupants) (ev : SysEvent) (h : SendersKnown w)
    (hev : SenderInPlace w.1 ev) : SendersKnown (observe Sys.step noteOccupant w ev) := by
  obtain ⟨s, occ⟩ := w
  obtain ⟨hping, hplace⟩ := hev
  refine ⟨step_rootInvariant s ev h.root, ?_⟩
  dsimp only [observe] at hping hplace ⊢
  have hc := h.root.aligned
  have hslots := h.slots
  cases harr : photoArrival s ev with
  | none =>
    have hkept : SlotsNamed (noteOccupant occ s ev) (s.step ev).io.mem s.cur.pRootMsg :=
      hslots.congr (noteOccupant_below hc ev) (step_addresses h.root harr hping)
    rcases step_other hc harr with hcur | hcur
    · rw [hcur]
      exact hkept
    · rw [hcur]
      exact .zero _ _
  | some pkt =>
    have hin := hplace pkt harr
    have hrecv := hslots.received (s := (s.io, s.cur)) pkt hc
    have hio := congrArg Prod.fst (step_photo harr)
    have hcur := congrArg Prod.snd (step_photo harr)
    dsimp only at hio hcur
    rw [noteOccupant_photo harr, hio, hcur]
    rcases arrive_arrived (s.io, s.cur) (s.w.gSockfd, pkt) with
      ⟨-, hio, hcur | hcur⟩ | ⟨hfits, hcount, hfirst⟩ | ⟨hnext, hmoved⟩ | ⟨-, -, -, -, hlast⟩
    · rw [hio, hcur]
      exact hrecv
    · rw [hio, hcur]
      rcases s.cur.error_slot with hslot | hslot
      · rw [hslot]
        exact hrecv
      · rw [hslot]
        exact .zero _ _
    · rw [hfirst]
      exact hslots.first (s := (s.io, s.cur)) pkt hc hcount (hin.first hfits hcount)
    · rw [hmoved]
      exact hslots.stored (s := (s.io, s.cur)) pkt hc (hin.next hnext)
    · rw [hlast]
      exact .zero _ _

theorem known_names (w : Sys × Occupants) (ev : SysEvent) (h : SendersKnown w)
    (hev : SenderInPlace w.1 ev) : NamesSenders w ev := by
  intro block hblock i hi
  obtain ⟨s, occ⟩ := w
  obtain ⟨pkt, harr, hfits, hcount, hgoing, rfl⟩ := hblock.complete
  have hin := hev.2 pkt harr
  have hc := h.root.aligned
  have hslots := h.slots
  dsimp only at *
  rw [noteOccupant_photo harr]
  have hnamed : SlotsNamed (occupy occ s.cur pkt.src) (begun (s.io, s.cur) pkt).1.mem
      (rootPacketLen * picCount (s.io, s.cur) pkt) := by
    by_cases hone : picCount (s.io, s.cur) pkt = 1
    · rw [hone]
      exact hslots.first (s := (s.io, s.cur)) pkt hc hone (hin.first hfits hone)
    · have hbegun : (begun (s.io, s.cur) pkt).1 = received s.io s.cur pkt := by
        rw [begun, if_neg hone]
      rw [hbegun]
      rcases hin.last hfits hcount hone (hgoing.resolve_left hone) with hshort | ⟨hall, haddr⟩
      · exact fun j hj => hslots.received (s := (s.io, s.cur)) pkt hc j (hj.trans_le hshort)
      · rw [hall]
        exact hslots.stored (s := (s.io, s.cur)) pkt hc haddr
  exact hnamed.block i hi

/-! ## Every run of the root -/

/-- **The senders.** In every run of the root whose photo packets find their senders' addresses
in place, each packet of each block sent names its sender. -/
theorem photo_names_senders (mac : Mac) (ip : List UInt8) (bytes tcpBytes : ℕ → UInt8)
    (sqmsg : ServerqueueMsg) (es : List SysEvent)
    (h : Along Sys.step SenderInPlace (Sys.boot mac ip bytes tcpBytes sqmsg) es) :
    Along (observe Sys.step noteOccupant) NamesSenders
      (Sys.boot mac ip bytes tcpBytes sqmsg, fun _ => none) es :=
  along_of_invariant_along (C := fun w ev => SenderInPlace w.1 ev) step_known known_names
    ⟨⟨⟨⟨0, rfl⟩, rfl, .inl rfl⟩, rfl⟩, .zero _ _⟩ ((along_observe _ _ _).mpr h)

/-! ## Photos of two packets -/

/-- Behind the first packet of a photo its sender answers a command, which leaves its address in
slot 1. -/
def answeredPhoto : Sys :=
  run Sys.step startedRoot
    [.rootRead (some (picOf (macOf 10) 1 2 7)) idleCmd, .rootTop (idleEnv 2000),
      .rootRead (some (nodePacket .response .led (Bytes.const 20 0))) idleCmd,
      .rootTop (idleEnv 3000)]

theorem photo_names_senders_two :
    Along (observe Sys.step noteOccupant) NamesSenders (zeroBoot, fun _ => none)
      (startEvents ++ [.rootRead (some (picOf (macOf 10) 1 2 7)) idleCmd, .rootTop (idleEnv 2000),
        .rootRead (some (nodePacket .response .led (Bytes.const 20 0))) idleCmd,
        .rootTop (idleEnv 3000), .rootRead (some (picOf (macOf 10) 2 2 8)) idleCmd]) := by
  have hquiet : ∀ {s : Sys} {ev : SysEvent}, ¬ PingDue s ev → photoArrival s ev = none →
      SenderInPlace s ev := fun hping hnone => ⟨fun hdue => absurd hdue hping, by simp [hnone]⟩
  have hfirst : PicPacket 1 2 (picOf (macOf 10) 1 2 7).data :=
    picOf_shape (macOf 10) 7 (by decide) (by decide)
  have hlast : PicPacket 2 2 (picOf (macOf 10) 2 2 8).data :=
    picOf_shape (macOf 10) 8 (by decide) (by decide)
  refine photo_names_senders _ _ _ _ _ _ ⟨hquiet (fun h => h) rfl,
    hquiet (fun h => absurd h.2.2.2 (by decide)) rfl, ⟨fun h => h.elim, fun pkt hpkt => ?_⟩,
    hquiet (fun h => absurd h.2.2.2 (by decide)) rfl,
    hquiet (fun h => h) (by rw [photoArrival, if_neg fun h => absurd h.2.2 (by decide)]),
    hquiet (fun h => absurd h.2.2.2 (by decide)) rfl, ⟨fun h => h.elim, fun pkt hpkt => ?_⟩,
    trivial⟩
  · rw [photoArrival_pic (by decide) rfl ⟨1, 2, hfirst⟩] at hpkt
    obtain rfl := Option.some.inj hpkt
    exact ⟨fun _ _ => .inl rfl, fun hnext => absurd (hfirst.load16 _ _).1 hnext.notFirst,
      fun _ _ hone => absurd (hfirst.load16 _ _).1 hone⟩
  · rw [photoArrival_pic (by decide) rfl ⟨2, 2, hlast⟩] at hpkt
    obtain rfl := Option.some.inj hpkt
    obtain ⟨hcount, hmax⟩ := hlast.load16 answeredPhoto.io.mem answeredPhoto.cur.pServerCmd
    have hcursor : answeredPhoto.cur.pRootMsg = rootPacketLen := by decide
    have haddr : answeredPhoto.io.mem.load answeredPhoto.cur.pRootMsg 6 = (macOf 10).val := by
      decide
    refine ⟨fun _ hone => absurd (hcount.symm.trans hone) (by decide),
      fun hnext => absurd (hcount.trans hmax.symm) hnext.notLast, fun _ _ _ _ => .inr ⟨?_, haddr⟩⟩
    have hslot : answeredPhoto.cur.pRootMsg + rootPacketLen = rootPacketLen * 2 := by
      rw [hcursor, Nat.mul_two]
    exact (congrArg (rootPacketLen * ·) hcount).trans hslot.symm

/-- A photo of two packets in a buffer of zeros: the second packet is sent without a sender. -/
theorem second_packet_unnamed :
    ¬ Along (observe Sys.step noteOccupant) NamesSenders (zeroBoot, fun _ => none)
      (startEvents ++
          [.rootRead (some (picOf (macOf 10) 1 2 7)) idleCmd, .rootTop (idleEnv 2000)] ++
        [.rootRead (some (picOf (macOf 10) 2 2 8)) idleCmd]) := by
  intro h
  obtain ⟨w, hw⟩ : ∃ w, w = run (observe Sys.step noteOccupant) (zeroBoot, fun _ => none)
      (startEvents ++ [.rootRead (some (picOf (macOf 10) 1 2 7)) idleCmd,
        .rootTop (idleEnv 2000)]) := ⟨_, rfl⟩
  have hstate : w.1 = cutOffPhoto := by
    rw [hw, run_observe, run_append]
    rfl
  rw [along_append, ← hw] at h
  have hnames := h.2.1
  obtain ⟨s, occ⟩ := w
  dsimp only at hstate
  rw [hstate] at hnames
  have hpic : PicPacket 2 2 (picOf (macOf 10) 2 2 8).data :=
    picOf_shape (macOf 10) 8 (by decide) (by decide)
  let pkt : MeshPacket := picOf (macOf 10) 2 2 8
  have harr : photoArrival cutOffPhoto (.rootRead (some pkt) idleCmd) = some pkt :=
    photoArrival_pic (by decide) rfl ⟨2, 2, hpic⟩ idleCmd
  have hstart : cutOffPhoto.cur.bStartGetImage = true := by decide
  have hsent : PhotoSent cutOffPhoto (.rootRead (some pkt) idleCmd)
      ((received cutOffPhoto.io cutOffPhoto.cur pkt).mem.load 0 (rootPacketLen * 2)) := by
    refine ⟨pkt, harr, ?_⟩
    have hio := congrArg Prod.fst (step_photo harr)
    dsimp only at hio
    rw [hio, arrive_eq _ _ hpic, if_neg (by decide), if_neg (by decide), imageAccept, hstart,
      if_neg (by simp), if_pos rfl]
    rfl
  obtain ⟨src, hsrc, hload⟩ := hnames _ hsent 1 (by rw [load_length])
  have hreach : cutOffPhoto.Reachable := startedRoot_reachable.run _
  rw [noteOccupant_photo harr, occupy_apply hreach.rootInvariant.aligned
    (k := 1) (by decide), if_pos rfl] at hsrc
  rw [← Option.some.inj hsrc, Mem.load_drop _ _ _ _ (by decide), Mem.load_take _ _ _ _ (by decide)]
    at hload
  revert hload
  decide

end EspMesh
