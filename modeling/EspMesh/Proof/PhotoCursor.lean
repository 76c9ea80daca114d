import EspMesh.Proof.PhotoForward

/-! # The receive cursor

`max_count` is the only number that the image function checks. The cursor moves one slot for
every packet it accepts that is not the last one, whatever number that packet has, so a packet
that is received again and again carries it out of the buffer.
-/

namespace EspMesh
set_option autoImplicit false
set_option maxRecDepth 20000
open ByteMem Mem StepRuns

/-! ## What one photo packet does -/

def picCount (s : Io × Cursor) (pkt : MeshPacket) : ℕ :=
  (received s.1 s.2 pkt).mem.load16 s.2.pServerCmd

def picMax (s : Io × Cursor) (pkt : MeshPacket) : ℕ :=
  (received s.1 s.2 pkt).mem.load16 (s.2.pServerCmd + u16MaxCount)

/-- The packet has been received; with count 1 it begins a photo. -/
def begun (s : Io × Cursor) (pkt : MeshPacket) : Io × Cursor :=
  if picCount s pkt = 1 then
    ((received s.1 s.2 pkt).modify fun m => m.store 0 pkt.src.val, s.2.restart)
  else (received s.1 s.2 pkt, s.2)

/-- A photo is going on once the packet has begun one or been received. -/
def Going (s : Io × Cursor) (pkt : MeshPacket) : Prop :=
  picCount s pkt = 1 ∨ s.2.bStartGetImage = true

/-- A packet in the middle of a photo of the node whose address is in slot 0. -/
structure Continues (s : Io × Cursor) (pkt : MeshPacket) : Prop where
  fits : picMax s pkt ≤ photoPacketMaxCount
  notFirst : picCount s pkt ≠ 1
  notLast : picCount s pkt ≠ picMax s pkt
  going : s.2.bStartGetImage = true
  addr : (received s.1 s.2 pkt).mem.load 0 6 = pkt.src.val

/-- What a packet leaves: it is dropped, begins a photo, goes on with one, or completes one. -/
inductive Arrived (s : Io × Cursor) (a : Option ℕ × MeshPacket) (s' : Io × Cursor) : Prop
  | dropped (hnot : ¬ Continues s a.2) (io : s'.1 = received s.1 s.2 a.2)
      (cur : s'.2 = s.2 ∨ s'.2 = s.2.error)
  | first (fits : picMax s a.2 ≤ photoPacketMaxCount) (count : picCount s a.2 = 1)
      (h : s' = ((begun s a.2).1, s.2.restart.advance))
  | next (hnext : Continues s a.2) (h : s' = (received s.1 s.2 a.2, s.2.advance))
  | last (fits : picMax s a.2 ≤ photoPacketMaxCount) (count : picCount s a.2 = picMax s a.2)
      (going : Going s a.2)
      (io : s'.1 = if a.1 = none then (begun s a.2).1 else
        (begun s a.2).1.emit (.send ((begun s a.2).1.mem.load 0 (rootPacketLen * picCount s a.2))))
      (cur : s'.2 = (begun s a.2).2.rewind)

theorem arrive_arrived (s : Io × Cursor) (a : Option ℕ × MeshPacket) :
    Arrived s a (arrive s a) := by
  have harrive : arrive s a =
      if picMax s a.2 > photoPacketMaxCount then (received s.1 s.2 a.2, s.2.error)
      else imageAccept a.1 a.2.src (picCount s a.2) (picMax s a.2) (begun s a.2).1
        (begun s a.2).2 := by
    unfold arrive doProcessImageData begun picCount picMax
    dsimp only
    split
    · rfl
    · split <;> rfl
  rw [harrive]
  split
  · next hlong => exact .dropped (fun h => absurd h.fits (by omega)) rfl (.inr rfl)
  · next hfits =>
    rw [Nat.not_lt] at hfits
    by_cases hfirst : picCount s a.2 = 1
    · -- Slot 0 has just got the sender's address.
      have hbegun : begun s a.2 =
          ((received s.1 s.2 a.2).modify fun m => m.store 0 a.2.src.val, s.2.restart) :=
        if_pos hfirst
      have haddr : (begun s a.2).1.mem.load 0 6 = a.2.src.val := by
        rw [hbegun, Io.modify_mem]
        exact received_own_addr s a.2
      have hstart : (begun s a.2).2.bStartGetImage = true := by rw [hbegun]; rfl
      rw [imageAccept, hstart, if_neg (by simp)]
      split
      · next hlast => exact .last hfits hlast (.inl hfirst) rfl rfl
      · exact .first hfits hfirst (by rw [hbegun])
    · have hbegun : begun s a.2 = (received s.1 s.2 a.2, s.2) := if_neg hfirst
      rw [imageAccept]
      split
      · next hstart =>
        rw [hbegun] at hstart
        exact .dropped (fun h => by simp [h.going] at hstart) (by rw [hbegun])
          (.inl (by rw [hbegun]))
      · next hstart =>
        rw [hbegun] at hstart
        have hgoing : s.2.bStartGetImage = true := by simpa using hstart
        split
        · next hlast => exact .last hfits hlast (.inr hgoing) rfl rfl
        · next hlast =>
          split
          · next haddr =>
            rw [hbegun] at haddr ⊢
            exact .next ⟨hfits, hfirst, hlast, hgoing, haddr⟩ rfl
          · next haddr =>
            rw [hbegun] at haddr
            exact .dropped (fun h => haddr h.addr) (by rw [hbegun]) (.inr (by rw [hbegun]))

/-! ## Photo packets among the events of the root -/

/-- The packet with which the step calls the image function. -/
def photoArrival (s : Sys) : SysEvent → Option MeshPacket
  | .rootRead (some pkt) _ =>
    if s.root.pc = .reading ∧ pkt.type.upgrade = false ∧
        (received s.io s.cur pkt).mem.load s.cur.pServerCmd packetHeaderLen ≠
          mwifiAddrBroadcast.val then some pkt
    else none
  | _ => none

theorem photoArrival_pic {s : Sys} {pkt : MeshPacket} (hpc : s.root.pc = .reading)
    (hup : pkt.type.upgrade = false) (hpic : IsPic pkt) (e : CmdEnv) :
    photoArrival s (.rootRead (some pkt) e) = some pkt := by
  obtain ⟨_, _, hpic⟩ := hpic
  rw [photoArrival, if_pos ⟨hpc, hup, hpic.not_normal _ _⟩]

/-- The step sends a block of packets. -/
def PhotoSent (s : Sys) (ev : SysEvent) (block : List UInt8) : Prop :=
  ∃ pkt ∈ photoArrival s ev,
    (s.step ev).io.trace = .send block :: .mwifiRootRead pkt.src pkt.data :: s.io.trace

theorem step_photo {s : Sys} {ev : SysEvent} {pkt : MeshPacket} (h : photoArrival s ev = some pkt) :
    ((s.step ev).io, (s.step ev).cur) = arrive (s.io, s.cur) (s.w.gSockfd, pkt) := by
  unfold photoArrival at h
  split at h
  · next pkt' e =>
    split at h
    · next hif =>
      obtain ⟨hpc, hup, hpic⟩ := hif
      cases h
      simp only [received, Io.emit_mem, Io.modify_mem] at hpic
      simp only [Sys.step, if_pos hpc, rootRead, hup, Bool.false_eq_true, if_false, rootBusiness,
        Io.emit_mem, Io.modify_mem, if_neg hpic]
      rfl
    · cases h
  · cases h

theorem rootBusiness_normal (src : Mac) (e : CmdEnv) {s : Sys}
    (h : s.io.mem.load s.cur.pServerCmd packetHeaderLen = mwifiAddrBroadcast.val) :
    (rootBusiness src e s).cur = s.cur ∧
      SameBelow s.cur.pRootMsg s.io.mem (rootBusiness src e s).io.mem := by
  have haddr : SameBelow s.cur.pRootMsg s.io.mem (s.io.mem.store s.cur.pRootMsg src.val) :=
    (SameBelow.refl _ _).store _ (le_refl _)
  unfold rootBusiness
  rw [if_pos h]
  refine ⟨rfl, ?_⟩
  dsimp only
  split
  · exact haddr.trans (doProcessDataFromTcpserOrRoot_below (Io.modify _ _) _ _)
  · exact haddr.trans (doProcessDataFromNode_below (Io.modify _ _) _ _ _)

/-- Whatever else is read leaves the cursor and everything in front of it alone. -/
theorem rootRead_other {s : Sys} {pkt : Option MeshPacket} {e : CmdEnv} (hs : s.cur.Aligned)
    (hpc : s.root.pc = .reading) (h : photoArrival s (.rootRead pkt e) = none) :
    (rootRead pkt e s).cur = s.cur ∧
      SameBelow s.cur.pRootMsg s.io.mem (rootRead pkt e s).io.mem := by
  cases pkt with
  | none => exact ⟨rfl, SameBelow.refl _ _⟩
  | some pkt =>
    have hrecv : SameBelow s.cur.pRootMsg s.io.mem (received s.io s.cur pkt).mem :=
      (SameBelow.refl _ _).store _ (by rw [hs.cmd]; omega)
    unfold rootRead
    dsimp only
    split
    · exact ⟨rfl, hrecv⟩
    · next hup =>
      have hnormal : (received s.io s.cur pkt).mem.load s.cur.pServerCmd packetHeaderLen =
          mwifiAddrBroadcast.val := by
        by_contra hpic
        rw [photoArrival, if_pos ⟨hpc, by simpa using hup, hpic⟩] at h
        cases h
      obtain ⟨hcur, hbelow⟩ := rootBusiness_normal pkt.src e (s := { s with
        io := received s.io s.cur pkt
        root := { s.root with pc := .top, dataType := pkt.type } }) hnormal
      exact ⟨hcur, hrecv.trans hbelow⟩

/-- Besides the photo packets only a start of the task moves the cursor, and it rewinds it. -/
theorem step_other {s : Sys} {ev : SysEvent} (hs : s.cur.Aligned) (h : photoArrival s ev = none) :
    (s.step ev).cur = s.cur ∨ (s.step ev).cur = s.cur.rewind := by
  cases ev with
  | rootStart sqmsg =>
    simp only [Sys.step]
    split
    · exact .inr rfl
    · exact .inl rfl
  | rootTop e =>
    simp only [Sys.step]
    split
    · exact .inl (rootTop_spec e s hs).1
    · exact .inl rfl
  | rootRead pkt e =>
    simp only [Sys.step]
    split
    · next hpc => exact .inl (rootRead_other hs hpc h).1
    · exact .inl rfl
  | tcpStart sqmsg => simp only [Sys.step]; split <;> exact .inl rfl
  | tcpTurn e => simp only [Sys.step]; split <;> exact .inl rfl
  | otaTask i e => exact .inl rfl

/-! ## The cursor in its buffer -/

structure InBuffer (s : Sys) : Prop where
  slot : ∃ k < photoPacketMaxCount, s.cur.pRootMsg = rootPacketLen * k
  cmd : s.cur.pServerCmd = s.cur.pRootMsg + tNode
  read : s.cur.pServerCmd + childPacketLen ≤ rootMeshReadLen

/-- The step accepts a packet in the middle of a photo while the cursor is at the last slot. -/
def Overruns (s : Sys) (ev : SysEvent) : Prop :=
  ∃ pkt ∈ photoArrival s ev, Continues (s.io, s.cur) pkt ∧
    s.cur.pRootMsg = rootPacketLen * (photoPacketMaxCount - 1)

/-- The block a step sends lies in the buffer. -/
def BlockInBuffer (s : Sys) (ev : SysEvent) : Prop :=
  ∀ block, PhotoSent s ev block → block.length ≤ rootMeshReadLen

theorem inBuffer_of_slot {s : Sys} (hs : s.cur.Aligned) {k : ℕ} (hk : k < photoPacketMaxCount)
    (hslot : s.cur.pRootMsg = rootPacketLen * k) : InBuffer s := by
  refine ⟨⟨k, hk, hslot⟩, hs.cmd, ?_⟩
  rw [hs.cmd, hslot]
  simp only [rootPacketLen, childPacketLen, mwifiAddrLen, tNode, rootMeshReadLen,
    photoPacketMaxCount] at *
  omega

theorem Cursor.error_slot (c : Cursor) : c.error.pRootMsg = c.pRootMsg ∨ c.error.pRootMsg = 0 := by
  unfold Cursor.error
  split
  · exact .inr rfl
  · exact .inl rfl

/-- Where a step that does not overrun leaves the cursor. -/
theorem step_slot {s : Sys} {ev : SysEvent} (hs : RootInvariant s) (h : InBuffer s)
    (hev : ¬ Overruns s ev) :
    ∃ k < photoPacketMaxCount, (s.step ev).cur.pRootMsg = rootPacketLen * k := by
  have hzero : ∀ {c : Cursor}, c.pRootMsg = 0 →
      ∃ k < photoPacketMaxCount, c.pRootMsg = rootPacketLen * k := fun h0 => ⟨0, by simp, h0⟩
  cases harr : photoArrival s ev with
  | none =>
    rcases step_other hs.aligned harr with hcur | hcur
    · rw [hcur]
      exact h.slot
    · rw [hcur]
      exact hzero rfl
  | some pkt =>
    have hstep := congrArg Prod.snd (step_photo harr)
    dsimp only at hstep
    rw [hstep]
    rcases arrive_arrived (s.io, s.cur) (s.w.gSockfd, pkt) with
      ⟨-, -, hcur | hcur⟩ | ⟨-, -, hfirst⟩ | ⟨hnext, hmoved⟩ | ⟨-, -, -, -, hlast⟩
    · rw [hcur]
      exact h.slot
    · rcases s.cur.error_slot with hslot | hslot
      · rw [hcur, hslot]
        exact h.slot
      · rw [hcur]
        exact hzero hslot
    · rw [hfirst]
      exact ⟨1, by simp, rfl⟩
    · obtain ⟨k, hk, hslot⟩ := h.slot
      have hroom : k ≠ photoPacketMaxCount - 1 := fun hfull =>
        hev ⟨pkt, harr, hnext, by rw [hslot, hfull]⟩
      rw [hmoved]
      refine ⟨k + 1, by omega, ?_⟩
      rw [Nat.mul_succ, ← hslot]
      rfl
    · rw [hlast]
      exact hzero rfl

theorem step_overruns {s : Sys} {ev : SysEvent} (hev : Overruns s ev) : ¬ InBuffer (s.step ev) := by
  obtain ⟨pkt, harr, hnext, hslot⟩ := hev
  have hmoved : (s.step ev).cur = s.cur.advance := by
    have hstep := congrArg Prod.snd (step_photo harr)
    dsimp only at hstep
    rw [hstep]
    rcases arrive_arrived (s.io, s.cur) (s.w.gSockfd, pkt) with
      ⟨hnot, -, -⟩ | ⟨-, hfirst, -⟩ | ⟨-, hmoved⟩ | ⟨-, hlast, -, -, -⟩
    · exact absurd hnext hnot
    · exact absurd hfirst hnext.notFirst
    · rw [hmoved]
    · exact absurd hlast hnext.notLast
  intro h
  obtain ⟨k, hk, hk'⟩ := h.slot
  rw [hmoved, Cursor.advance, hslot] at hk'
  simp only [rootPacketLen, childPacketLen, mwifiAddrLen, photoPacketMaxCount] at hk hk'
  omega

/-! ## Every run of the root -/

theorem begun_trace (s : Io × Cursor) (pkt : MeshPacket) :
    (begun s pkt).1.trace = .mwifiRootRead pkt.src pkt.data :: s.1.trace := by
  unfold begun
  split <;> rfl

/-- A block that is sent consists of as many slots as the packet that completes it says. -/
theorem PhotoSent.complete {s : Sys} {ev : SysEvent} {block : List UInt8}
    (h : PhotoSent s ev block) : ∃ pkt ∈ photoArrival s ev,
      picMax (s.io, s.cur) pkt ≤ photoPacketMaxCount ∧
      picCount (s.io, s.cur) pkt = picMax (s.io, s.cur) pkt ∧ Going (s.io, s.cur) pkt ∧
      block = (begun (s.io, s.cur) pkt).1.mem.load 0
        (rootPacketLen * picCount (s.io, s.cur) pkt) := by
  obtain ⟨pkt, harr, htrace⟩ := h
  have hstep := congrArg Prod.fst (step_photo harr)
  dsimp only at hstep
  have hread : ∀ {io : Io}, io.trace = .mwifiRootRead pkt.src pkt.data :: s.io.trace →
      (s.step ev).io = io → False := by
    intro io hio hsame
    rw [hsame, hio] at htrace
    cases (List.cons.inj htrace).1
  refine ⟨pkt, harr, ?_⟩
  rcases arrive_arrived (s.io, s.cur) (s.w.gSockfd, pkt) with
    ⟨-, hio, -⟩ | ⟨-, -, hfirst⟩ | ⟨-, hnext⟩ | ⟨hfits, hcount, hgoing, hio, -⟩
  · exact (hread rfl (hstep.trans hio)).elim
  · exact (hread (begun_trace _ pkt) (hstep.trans (by rw [hfirst]))).elim
  · exact (hread rfl (hstep.trans (by rw [hnext]))).elim
  · refine ⟨hfits, hcount, hgoing, ?_⟩
    rw [hstep, hio] at htrace
    split at htrace
    · rw [begun_trace] at htrace
      cases (List.cons.inj htrace).1
    · exact (Event.send.inj (List.cons.inj htrace).1).symm

theorem blockInBuffer (s : Sys) (ev : SysEvent) : BlockInBuffer s ev := by
  intro block h
  obtain ⟨pkt, -, hfits, hcount, -, rfl⟩ := h.complete
  rw [load_length, hcount, rootMeshReadLen, Nat.mul_comm]
  exact Nat.mul_le_mul_right _ hfits

/-- **The receive cursor.** In every run of the root, the cursor is at a slot of the buffer in
each state, and so are the next read and the blocks sent, exactly when no packet in the middle
of a photo is accepted while the cursor is at the last slot. -/
theorem cursor_in_buffer (mac : Mac) (ip : List UInt8) (bytes tcpBytes : ℕ → UInt8)
    (sqmsg : ServerqueueMsg) (es : List SysEvent) :
    let boot := Sys.boot mac ip bytes tcpBytes sqmsg
    (Through Sys.step InBuffer boot es ∧ Along Sys.step BlockInBuffer boot es) ↔
      Along Sys.step (fun s ev => ¬ Overruns s ev) boot es := by
  intro boot
  have hboot : boot.cur.Aligned := ⟨⟨0, rfl⟩, rfl, .inl rfl⟩
  have hblocks : Along Sys.step BlockInBuffer boot es :=
    along_of_forall fun s ev _ => blockInBuffer s ev
  rw [and_iff_left hblocks]
  refine through_iff_along (I := fun s => RootInvariant s ∧ InBuffer s) ?_ (fun s hs => hs.2) ?_
    ⟨⟨hboot, rfl⟩, inBuffer_of_slot hboot (by simp) (Nat.mul_zero _).symm⟩
  · intro s ev hs hev
    have hinv := step_rootInvariant s ev hs.1
    obtain ⟨k, hk, hslot⟩ := step_slot hs.1 hs.2 hev
    exact ⟨hinv, inBuffer_of_slot hinv.aligned hk hslot⟩
  · intro s ev _ hin hev
    exact step_overruns hev hin

/-! ## A packet received again and again -/

theorem rootRead_kept (pkt : MeshPacket) (e : CmdEnv) (s : Sys) :
    (rootRead (some pkt) e s).root.pc = .top ∧
      (rootRead (some pkt) e s).pingLast = s.pingLast := by
  unfold rootRead
  dsimp only
  split
  · exact ⟨rfl, rfl⟩
  · unfold rootBusiness
    split <;> exact ⟨rfl, rfl⟩

/-- The root has received packets of a photo of `node` up to slot `n` and nothing else waits. -/
structure AtSlot (node : Mac) (n : ℕ) (s : Sys) : Prop where
  pc : s.root.pc = .top
  socket : s.w.gSockfd = some 3
  flag : s.w.ota.bDeviceOtaFlag = false
  queue : s.w.serverQueue.items = []
  ping : s.pingLast = 0
  start : s.cur.bStartGetImage = true
  addr : s.io.mem.load 0 6 = node.val
  slot : s.cur.pRootMsg = rootPacketLen * n
  aligned : s.cur.Aligned

/-- One iteration with packet 2 of 400. -/
def repeatOnce (node : Mac) : List SysEvent :=
  [.rootTop (idleEnv 2000), .rootRead (some (picOf node 2 400 7)) idleCmd]

theorem AtSlot.repeat {node : Mac} {n : ℕ} {s : Sys} (h : AtSlot node n s) :
    AtSlot node (n + 1) (run Sys.step s (repeatOnce node)) := by
  have hcalm : Calm s (.rootTop (idleEnv 2000)) :=
    ⟨h.pc, rfl, rfl, by rw [h.ping]; decide, h.flag, by rw [h.socket]; simp, rfl, h.queue⟩
  have htop := calm_top hcalm
  obtain ⟨s', hs'⟩ : ∃ s', s' = s.step (.rootTop (idleEnv 2000)) := ⟨_, rfl⟩
  rw [repeatOnce, run_cons, run_cons, run_nil, ← hs']
  rw [← hs'] at htop
  have hpc : s'.root.pc = .reading := by rw [htop]
  have hpic : PicPacket 2 400 (picOf node 2 400 7).data :=
    picOf_shape node 7 (by decide) (by decide)
  have hcalm' : Calm s' (.rootRead (some (picOf node 2 400 7)) idleCmd) :=
    ⟨hpc, fun p hp => by rw [← Option.some.inj hp]; rfl⟩
  obtain ⟨hw, hstep⟩ := calm_step s' _ hcalm' fun p hp => by
    rw [← Option.some.inj hp]
    exact ⟨2, 400, hpic⟩
  have hkept := rootRead_kept (picOf node 2 400 7) idleCmd s'
  have hrun : s'.step (.rootRead (some (picOf node 2 400 7)) idleCmd) =
      rootRead (some (picOf node 2 400 7)) idleCmd s' := by
    rw [Sys.step, if_pos hpc]
  have haddr : (received s'.io s'.cur (picOf node 2 400 7)).mem.load 0 6 = node.val := by
    rw [← h.addr, htop]
    exact load_store_off _ _ _ _ _ (.inl (by rw [h.aligned.cmd]; simp))
  have harrive : arrive (s'.io, s'.cur) (s'.w.gSockfd, picOf node 2 400 7) =
      (received s'.io s'.cur (picOf node 2 400 7), s'.cur.advance) := by
    have hstart : s'.cur.bStartGetImage = true := by rw [htop]; exact h.start
    rw [arrive_eq _ _ hpic, if_neg (by decide), if_neg (by decide), imageAccept, hstart,
      if_neg (by simp), if_neg (by decide)]
    exact if_pos haddr
  have hio : (s'.step (.rootRead (some (picOf node 2 400 7)) idleCmd)).io =
      received s'.io s'.cur (picOf node 2 400 7) :=
    (congrArg Prod.fst hstep).trans (congrArg Prod.fst harrive)
  have hcur : (s'.step (.rootRead (some (picOf node 2 400 7)) idleCmd)).cur = s'.cur.advance :=
    (congrArg Prod.snd hstep).trans (congrArg Prod.snd harrive)
  have hslot : s'.cur.advance.pRootMsg = rootPacketLen * (n + 1) := by
    rw [htop, Nat.mul_succ, ← h.slot]
    rfl
  refine ⟨?_, ?_, ?_, ?_, ?_, ?_, ?_, ?_, ?_⟩
  · rw [hrun, hkept.1]
  · rw [hw, htop, h.socket]
  · rw [hw, htop, h.flag]
  · rw [hw, htop, h.queue]
  · rw [hrun, hkept.2, htop, h.ping]
  · rw [hcur, htop]
    exact h.start
  · rw [hio, haddr]
  · rw [hcur, hslot]
  · rw [hcur]
    exact ⟨⟨n + 1, hslot⟩, rfl, .inr (by rw [htop]; exact h.start)⟩

def repeatedPacket (node : Mac) (n : ℕ) : List SysEvent :=
  (List.replicate n (repeatOnce node)).flatten

theorem AtSlot.repeated {node : Mac} {n : ℕ} {s : Sys} (h : AtSlot node n s) (k : ℕ) :
    AtSlot node (n + k) (run Sys.step s (repeatedPacket node k)) := by
  induction k generalizing n s with
  | zero => exact h
  | succ k ih =>
    rw [repeatedPacket, List.replicate_succ, List.flatten_cons, run_append,
      show n + (k + 1) = n + 1 + k by omega]
    exact ih h.repeat

def firstOfMany : Sys :=
  startedRoot.step (.rootRead (some (picOf (macOf 10) 1 400 7)) idleCmd)

theorem firstOfMany_atSlot : AtSlot (macOf 10) 1 firstOfMany := by
  have hpic : PicPacket 1 400 (picOf (macOf 10) 1 400 7).data :=
    picOf_shape (macOf 10) 7 (by decide) (by decide)
  have hcalm : Calm startedRoot (.rootRead (some (picOf (macOf 10) 1 400 7)) idleCmd) :=
    ⟨rfl, fun p hp => by rw [← Option.some.inj hp]; rfl⟩
  obtain ⟨hw, hstep⟩ := calm_step startedRoot _ hcalm fun p hp => by
    rw [← Option.some.inj hp]
    exact ⟨1, 400, hpic⟩
  obtain ⟨hhold, -⟩ := arrive_first (s := (startedRoot.io, startedRoot.cur))
    startedRoot_reachable.rootInvariant.aligned (some 3, picOf (macOf 10) 1 400 7) hpic
    (by decide) (by decide)
  have harrive : run arrive (startedRoot.io, startedRoot.cur)
      ((arrivalOf (.rootRead (some (picOf (macOf 10) 1 400 7)) idleCmd)).toList.map fun p =>
        (startedRoot.w.gSockfd, p)) =
      arrive (startedRoot.io, startedRoot.cur) (some 3, picOf (macOf 10) 1 400 7) := rfl
  rw [← harrive, ← hstep] at hhold
  change firstOfMany.w = startedRoot.w at hw
  exact ⟨by decide, by rw [hw]; rfl, by rw [hw]; rfl, by rw [hw]; rfl, by decide, hhold.start,
    hhold.addr, hhold.cursor, ⟨⟨1, hhold.cursor⟩, hhold.cmd, .inr hhold.start⟩⟩

/-- Packet 1 of 400, then packet 2 of 400 time and again: the 399th of them carries the cursor
behind the last slot. -/
theorem repeated_packet_overruns :
    ¬ Through Sys.step InBuffer zeroBoot
      (startEvents ++ [.rootRead (some (picOf (macOf 10) 1 400 7)) idleCmd] ++
        repeatedPacket (macOf 10) 399) := by
  intro h
  obtain ⟨k, hk, hslot⟩ := h.last.slot
  have hfirst : run Sys.step zeroBoot
      (startEvents ++ [.rootRead (some (picOf (macOf 10) 1 400 7)) idleCmd]) = firstOfMany := by
    rw [run_append, run_cons, run_nil]
    rfl
  rw [run_append, hfirst, (firstOfMany_atSlot.repeated 399).slot] at hslot
  simp only [rootPacketLen, childPacketLen, mwifiAddrLen, photoPacketMaxCount] at hk hslot
  omega

end EspMesh
