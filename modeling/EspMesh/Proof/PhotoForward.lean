import EspMesh.Proof.PhotoArrival

/-! # Forwarding one photo

A packet is received at the cursor before the function decides where the cursor belongs, so
packet 1 of a photo goes wherever the last photo left the cursor. Every other packet is received
where it belongs. The block is the photo exactly when packet 1 was received in slot 0, or slot 0
held the same packet already.
-/

namespace EspMesh
set_option autoImplicit false
set_option maxRecDepth 20000
open ByteMem Mem StepRuns

/-! ## Runs in which only photo packets arrive -/

/-- The step is an iteration up to the read that finds nothing else to do, or a read that brings
no upgrade packet. -/
def Calm (s : Sys) : SysEvent → Prop
  | .rootTop e => s.root.pc = .top ∧ e.connected = true ∧ e.isRoot = true ∧
      pingForce e.totalNodeNum e.meshEvent e.qmsgStack e.now s.pingLast = none ∧
      s.w.ota.bDeviceOtaFlag = false ∧ s.w.gSockfd ≠ none ∧ e.tcpEvent = none ∧
      s.w.serverQueue.items = []
  | .rootRead pkt _ => s.root.pc = .reading ∧ ∀ p ∈ pkt, p.type.upgrade = false
  | _ => False

def arrivalOf : SysEvent → Option MeshPacket
  | .rootRead pkt _ => pkt
  | _ => none

def IsPic (p : MeshPacket) : Prop := ∃ count maxCount, PicPacket count maxCount p.data

theorem calm_top {s : Sys} {e : RootEnv} (h : Calm s (.rootTop e)) :
    s.step (.rootTop e) = { s with root := { s.root with pc := .reading, dataType := .zero } } := by
  obtain ⟨hpc, hc, hr, hping, hflag, hsock, htcp, hqueue⟩ := h
  obtain ⟨fd, hfd⟩ := Option.ne_none_iff_exists'.mp hsock
  have hquiet : rootPing e s = s := by simp only [rootPing, hping]
  have hcon : rootConnect e s = (s, true) := by simp only [rootConnect, hfd]
  have hserve : rootServe e s =
      { s with root := { s.root with pc := .reading, dataType := .zero } } := by
    simp only [rootServe, rootOffline, htcp, rootCommand, CopyQueue.Queue.receive, hqueue]
  rw [← hserve]
  simp [Sys.step, hpc, rootTop, hc, hr, hquiet, hflag, hcon]

theorem calm_step (s : Sys) (ev : SysEvent) (h : Calm s ev) (hpic : ∀ p ∈ arrivalOf ev, IsPic p) :
    (s.step ev).w = s.w ∧ ((s.step ev).io, (s.step ev).cur) =
      run arrive (s.io, s.cur) ((arrivalOf ev).toList.map fun p => (s.w.gSockfd, p)) := by
  cases ev with
  | rootTop e =>
    rw [calm_top h]
    exact ⟨rfl, rfl⟩
  | rootRead pkt e =>
    obtain ⟨hpc, hup⟩ := h
    simp only [Sys.step, if_pos hpc]
    cases pkt with
    | none => exact ⟨rfl, rfl⟩
    | some p =>
      obtain ⟨count, maxCount, hp⟩ := hpic p rfl
      have hnot := hp.not_normal s.io.mem s.cur.pServerCmd
      simp only [rootRead, hup p rfl, Bool.false_eq_true, if_false, rootBusiness, Io.emit_mem,
        Io.modify_mem, if_neg hnot]
      exact ⟨trivial, rfl⟩
  | rootStart _ | tcpStart _ | tcpTurn _ | otaTask _ _ => exact h.elim

theorem calm_run (s : Sys) (es : List SysEvent) (h : Along Sys.step Calm s es)
    (hpic : ∀ p ∈ es.filterMap arrivalOf, IsPic p) :
    (run Sys.step s es).w = s.w ∧ ((run Sys.step s es).io, (run Sys.step s es).cur) =
      run arrive (s.io, s.cur) ((es.filterMap arrivalOf).map fun p => (s.w.gSockfd, p)) := by
  induction es generalizing s with
  | nil => exact ⟨rfl, rfl⟩
  | cons ev es ih =>
    have hsplit : (ev :: es).filterMap arrivalOf =
        (arrivalOf ev).toList ++ es.filterMap arrivalOf := by
      cases hev : arrivalOf ev <;> simp [hev]
    rw [hsplit] at hpic ⊢
    obtain ⟨hw, hstep⟩ := calm_step s ev h.1 fun p hp =>
      hpic p (List.mem_append_left _ (Option.mem_toList.mpr hp))
    obtain ⟨hw', hrun⟩ := ih _ h.2 fun p hp => hpic p (List.mem_append_right _ hp)
    rw [run_cons, List.map_append, run_append, ← hstep, hw', hrun, hw]
    exact ⟨rfl, rfl⟩

/-! ## A photo in order -/

theorem forward_rest (fd n : ℕ) (hn : n ≤ 400) (node : Mac) (rest : List MeshPacket)
    (parts : List (List UInt8)) (s : Io × Cursor) (h : Holding node parts s)
    (hpos : 0 < parts.length) (hne : rest ≠ []) (hlen : parts.length + rest.length = n)
    (hpic : ∀ i (hi : i < rest.length), PicPacket (parts.length + i + 1) n rest[i].data)
    (hsrc : ∀ p ∈ rest, p.src = node) :
    ∃ block, sentBlocks (run arrive s (rest.map fun p => (some fd, p))).1.trace =
        block :: sentBlocks s.1.trace ∧
      block.length = rootPacketLen * n ∧ blockParts block = parts ++ rest.map (·.data) := by
  induction rest generalizing parts s with
  | nil => exact absurd rfl hne
  | cons p rest ih =>
    have hp := hpic 0 (by simp)
    rw [List.length_cons] at hlen
    cases rest with
    | nil =>
      rw [List.length_nil, Nat.zero_add] at hlen
      rw [← hlen] at hp
      obtain ⟨block, hblock, _, hparts, harr⟩ := h.last (some fd, p) hp hpos (by omega)
      refine ⟨block, ?_, by rw [hblock, hlen], hparts⟩
      rw [List.map_singleton, run_cons, run_nil, harr]
      rfl
    | cons q rest =>
      rw [List.length_cons] at hlen
      obtain ⟨hnext, htrace⟩ := h.next (some fd, p) hp (hsrc p (List.mem_cons_self ..)) hpos
        (by omega) hn
      have hlen' : (parts ++ [p.data]).length = parts.length + 1 := List.length_append
      obtain ⟨block, hsent, hblock, hparts⟩ := ih (parts ++ [p.data]) (arrive s (some fd, p)) hnext
        (by omega) (by simp) (by rw [hlen', List.length_cons]; omega) (fun i hi => by
          have hi' := hpic (i + 1) (Nat.succ_lt_succ hi)
          rw [hlen', show parts.length + 1 + i + 1 = parts.length + (i + 1) + 1 by omega]
          exact hi') (fun r hr => hsrc r (List.mem_cons_of_mem _ hr))
      refine ⟨block, ?_, hblock, ?_⟩
      · rw [List.map_cons, run_cons, hsent, htrace]
        rfl
      · rw [hparts, List.append_assoc]
        rfl

/-- A photo that arrives in order is sent as one block, which differs from the photo at most
in its first part. -/
theorem forward_photo (fd : ℕ) (photo : Photo) (hmax : photo.packets.length ≤ 400)
    (p : MeshPacket) (rest : List MeshPacket) (hdata : (p :: rest).map (·.data) = photo.packets)
    (hsrc : ∀ q ∈ p :: rest, q.src = photo.node) (s : Io × Cursor) (hc : s.2.Aligned) :
    ∃ block, sentBlocks (run arrive s ((p :: rest).map fun q => (some fd, q))).1.trace =
        block :: sentBlocks s.1.trace ∧
      block.length = rootPacketLen * photo.packets.length ∧
      blockParts block = firstPart s p.data :: rest.map (·.data) := by
  have hlen : photo.packets.length = rest.length + 1 := by rw [← hdata]; simp
  have hpic : ∀ i (hi : i < (p :: rest).length),
      PicPacket (i + 1) (rest.length + 1) (p :: rest)[i].data := by
    intro i hi
    have hi' : i < photo.packets.length := by rw [hlen]; exact hi
    have hshape := photo.shape i hi'
    rw [hlen] at hshape
    have hget : photo.packets[i] = (p :: rest)[i].data := by
      simp only [← hdata, List.getElem_map]
    rwa [hget] at hshape
  have hp := hpic 0 (by simp)
  rw [hlen] at hmax ⊢
  cases rest with
  | nil =>
    obtain ⟨block, hblock, _, hparts, htrace, _⟩ := arrive_only hc (some fd, p) hp
    refine ⟨block, ?_, hblock, hparts⟩
    rw [List.map_singleton, run_cons, run_nil, htrace]
    rfl
  | cons q rest =>
    obtain ⟨hhold, htrace⟩ := arrive_first hc (some fd, p) hp (by simp) hmax
    rw [hsrc p (List.mem_cons_self ..)] at hhold
    obtain ⟨block, hsent, hblock, hparts⟩ := forward_rest fd _ hmax photo.node (q :: rest)
      [firstPart s p.data] (arrive s (some fd, p)) hhold (by simp) (by simp)
      (by simp; omega) (fun i hi => by
        have hi' := hpic (i + 1) (Nat.succ_lt_succ hi)
        rw [List.length_singleton, Nat.add_comm 1 i]
        exact hi') (fun r hr => hsrc r (List.mem_cons_of_mem _ hr))
    refine ⟨block, ?_, hblock, hparts⟩
    rw [List.map_cons, run_cons, hsent, htrace]
    rfl

/-! ## From every state of the root -/

structure Delivers (photo : Photo) (es : List SysEvent) : Prop where
  data : (es.filterMap arrivalOf).map (·.data) = photo.packets
  src : ∀ p ∈ es.filterMap arrivalOf, p.src = photo.node

theorem Delivers.isPic {photo : Photo} {es : List SysEvent} (h : Delivers photo es) :
    ∀ p ∈ es.filterMap arrivalOf, IsPic p := by
  intro p hp
  have hmem : p.data ∈ photo.packets := by rw [← h.data]; exact List.mem_map_of_mem hp
  obtain ⟨i, hi, hget⟩ := List.getElem_of_mem hmem
  exact ⟨_, _, hget ▸ photo.shape i hi⟩

/-- The run sends one block, which is the photo. -/
def Forwarded (photo : Photo) (s s' : Sys) : Prop :=
  ∃ block, sentBlocks s'.io.trace = block :: sentBlocks s.io.trace ∧
    block.length = rootPacketLen * photo.packets.length ∧ blockParts block = photo.packets

theorem forwarded_iff (s : Sys) (hs : RootInvariant s) (fd : ℕ) (hsock : s.w.gSockfd = some fd)
    (photo : Photo) (hpos : 1 ≤ photo.packets.length) (hmax : photo.packets.length ≤ 400)
    (es : List SysEvent) (hcalm : Along Sys.step Calm s es) (hes : Delivers photo es) :
    Forwarded photo s (run Sys.step s es) ↔
      firstPart (s.io, s.cur) (photo.packets.headD []) = photo.packets.headD [] := by
  obtain ⟨_, hrun⟩ := calm_run s es hcalm hes.isPic
  have hdata := hes.data
  have hsrc := hes.src
  cases harr : es.filterMap arrivalOf with
  | nil =>
    rw [harr, List.map_nil] at hdata
    rw [← hdata] at hpos
    exact absurd hpos (by simp)
  | cons p rest =>
    rw [harr] at hdata hsrc hrun
    rw [hsock] at hrun
    obtain ⟨block, hsent, hblock, hparts⟩ := forward_photo fd photo hmax p rest hdata hsrc
      (s.io, s.cur) hs.aligned
    rw [← hrun] at hsent
    rw [show photo.packets.headD [] = p.data by rw [← hdata]; rfl]
    constructor
    · rintro ⟨block', hsent', _, hparts'⟩
      rw [hsent] at hsent'
      rw [← (List.cons.inj hsent').1, hparts, ← hdata] at hparts'
      exact (List.cons.inj hparts').1
    · intro h
      refine ⟨block, hsent, hblock, ?_⟩
      rw [hparts, h, ← hdata]
      rfl

/-- **Photo forwarding.** From every state of the root, a photo delivered in order with nothing
in between is forwarded as it is exactly when the cursor was at slot 0, or slot 0 held its
first packet already. -/
theorem photo_forward (s : Sys) (hs : s.Reachable) (fd : ℕ) (hsock : s.w.gSockfd = some fd)
    (photo : Photo) (hpos : 1 ≤ photo.packets.length)
    (hmax : photo.packets.length ≤ photoPacketMaxCount) (es : List SysEvent)
    (hcalm : Along Sys.step Calm s es) (hes : Delivers photo es) :
    Forwarded photo s (run Sys.step s es) ↔
      s.cur.pRootMsg = 0 ∨ s.io.mem.load tNode childPacketLen = photo.packets.headD [] := by
  rw [forwarded_iff s hs.rootInvariant fd hsock photo hpos hmax es hcalm hes, firstPart]
  split
  · next h => exact ⟨fun _ => .inl h, fun _ => rfl⟩
  · next h => exact ⟨.inr, fun h' => h'.resolve_left h⟩

/-! ## A photo of two packets -/

def twoPackets (node : Mac) (b c : UInt8) : List SysEvent :=
  [.rootRead (some (picOf node 1 2 b)) idleCmd, .rootTop (idleEnv 2000),
    .rootRead (some (picOf node 2 2 c)) idleCmd]

theorem twoPackets_delivers (node : Mac) (b c : UInt8) :
    Delivers (photoOfTwo node b c) (twoPackets node b c) :=
  ⟨rfl, by simp [twoPackets, arrivalOf, picOf, photoOfTwo]⟩

theorem photo_forward_fresh :
    Forwarded (photoOfTwo (macOf 10) 7 8) startedRoot
      (run Sys.step startedRoot (twoPackets (macOf 10) 7 8)) :=
  (photo_forward startedRoot startedRoot_reachable 3 rfl
    (photoOfTwo (macOf 10) 7 8) (by decide) (by decide)
    (twoPackets (macOf 10) 7 8)
    ⟨⟨rfl, by decide⟩, ⟨by decide, rfl, rfl, by decide, by decide, by decide, rfl, by decide⟩,
      ⟨by decide, by decide⟩, trivial⟩
    (twoPackets_delivers _ _ _)).mpr (.inl rfl)

/-- A photo cut off after its first packet, and then a whole one: the block starts with the
packet of the photo that was cut off. -/
def cutOffPhoto : Sys :=
  run Sys.step startedRoot [.rootRead (some (picOf (macOf 10) 1 2 7)) idleCmd,
    .rootTop (idleEnv 2000)]

theorem cut_off_photo_mixed :
    let node : Mac := macOf 10
    cutOffPhoto.Reachable ∧ cutOffPhoto.w.gSockfd = some 3 ∧
      Along Sys.step Calm cutOffPhoto (twoPackets node 8 9) ∧
      Delivers (photoOfTwo node 8 9) (twoPackets node 8 9) ∧
      ¬ Forwarded (photoOfTwo node 8 9) cutOffPhoto
        (run Sys.step cutOffPhoto (twoPackets node 8 9)) := by
  intro node
  have hcalm : Along Sys.step Calm cutOffPhoto (twoPackets node 8 9) :=
    ⟨⟨by decide, by decide⟩, ⟨by decide, rfl, rfl, by decide, by decide, by decide, rfl, by decide⟩,
      ⟨by decide, by decide⟩, trivial⟩
  refine ⟨startedRoot_reachable.run _, rfl, hcalm, twoPackets_delivers _ _ _, ?_⟩
  have hreach : cutOffPhoto.Reachable := startedRoot_reachable.run _
  rw [forwarded_iff cutOffPhoto hreach.rootInvariant 3 rfl _ (by decide) (by decide) _ hcalm
    (twoPackets_delivers _ _ _), firstPart, if_neg (by decide)]
  -- Byte 6 of the packet is the first byte of its picture.
  intro h
  have hbyte := congrArg (fun l => l.getD 6 0) h
  rw [load_getD _ _ _ _ (by decide)] at hbyte
  revert hbyte
  decide

end EspMesh
