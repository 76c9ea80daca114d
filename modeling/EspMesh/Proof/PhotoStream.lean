import EspMesh.Model.PicLoop
import EspMesh.Proof.NodePhoto

/-! # The packets of a picture, from a node and from the root

The two senders count differently, but both loops end, and for the same picture they send the same
fields and the same bytes.
-/

namespace EspMesh
set_option autoImplicit false
set_option maxRecDepth 20000
open ByteMem Mem WhileLoop

/-! ## Both loops end -/

theorem word16_uInt16 (n : ℕ) : word16 (UInt16.ofNat n).toNat = word16 n := by
  rw [UInt16.toNat_ofNat', word16, word16]
  have hlow : UInt8.ofNat (n % 65536) = UInt8.ofNat n := by
    apply UInt8.toNat.inj
    simp only [UInt8.toNat_ofNat']
    omega
  have hhigh : UInt8.ofNat (n % 65536 / 256) = UInt8.ofNat (n / 256) := by
    apply UInt8.toNat.inj
    simp only [UInt8.toNat_ofNat']
    omega
  rw [show (2 : ℕ) ^ 16 = 65536 from rfl, hlow, hhigh]

/-- The locals when `i` packets have been sent. -/
def picLocals (io : Io) (size : UInt32) (i : ℕ) : PicLocals :=
  ⟨io, size, packetBodyLen * i, UInt16.ofNat (i + 1)⟩

theorem picLocals_next (io io' : Io) (size : UInt32) (i : ℕ) :
    (picLocals io size i).next io' =
      picLocals io' (size - UInt32.ofNat packetBodyLen) (i + 1) := by
  rw [picLocals, PicLocals.next, picLocals, UInt16.ofNat_add (i + 1) 1]
  rfl

section Node
variable (fb : CameraFb) (writeOk : ℕ → Bool)

theorem uInt16_number {i : ℕ} (h : i < 65536) : (UInt16.ofNat (i + 1) - 1).toNat = i := by
  rw [UInt16.toNat_sub, UInt16.toNat_ofNat']
  have hone : (1 : UInt16).toNat = 1 := rfl
  omega

theorem nodePicTurn_locals {i : ℕ} (h : i < 65536) (io : Io) (size : UInt32) :
    nodePicTurn fb writeOk (picLocals io size i) =
      if writeOk i then
        (picLocals (picWritten fb i io) (size - UInt32.ofNat packetBodyLen) (i + 1), false)
      else (picLocals (picWritten fb i io) size i, true) := by
  simp only [nodePicTurn, picLocals_next]
  simp only [picLocals, word16_uInt16, uInt16_number h]
  rfl

theorem nodePicEnd_locals {i : ℕ} (h : i < 65536) (io : Io) (size : UInt32) :
    nodePicEnd fb writeOk (picLocals io size i, false) =
      nodePhotoLast fb writeOk (io, some (i, size.toNat)) := by
  simp only [nodePicEnd, nodePhotoLast, picLocals, word16_uInt16, uInt16_number h]

theorem nodePicTurns (n i : ℕ) (size : UInt32) (io : Io) (h : i + n < 65536) :
    nodePicEnd fb writeOk (turns (nodePicTurn fb writeOk) n (picLocals io size i)) =
      nodePhotoLast fb writeOk (nodePhotoLoop fb writeOk n i size.toNat io) := by
  induction n generalizing i size io with
  | zero => exact nodePicEnd_locals fb writeOk (by omega) io size
  | succ n ih =>
    rw [turns, nodePicTurn_locals fb writeOk (by omega), nodePhotoLoop_succ]
    by_cases hok : writeOk i = true
    · have hsize : (size - UInt32.ofNat packetBodyLen).toNat =
          (size.toNat + 4294967296 - packetBodyLen) % 4294967296 := by
        rw [UInt32.toNat_sub, show (UInt32.ofNat packetBodyLen).toNat = packetBodyLen from rfl]
        simp only [packetBodyLen, childPacketLen, packetHeaderLen]
        omega
      rw [if_pos hok, if_pos hok, ih _ _ _ (by omega), hsize]
    · rw [if_neg hok, if_neg hok]
      rfl

theorem nodePicTurn_counts {s t : PicLocals} (h : nodePicTurn fb writeOk s = (t, false)) :
    t.count = s.count + 1 := by
  unfold nodePicTurn at h
  dsimp only at h
  split at h
  · cases h
    rfl
  · cases h

/-- `node_send_pic` returns for every picture and whatever its writes return, and what it has
done by then is `nodeSendPic`. -/
theorem nodeSendPic_ends (hlen : fb.len < 4294967296) (io : Io) (out : Io × Bool) :
    NodeSendPicEnds fb writeOk io out ↔ out = nodeSendPic (some fb) writeOk io := by
  have hcount : ∀ s t : PicLocals, (s.count != UInt16.ofNat (picMaxCount fb.len)) = true →
      nodePicTurn fb writeOk s = (t, false) →
      (UInt16.ofNat (picMaxCount fb.len) - t.count).toNat + 1 =
        (UInt16.ofNat (picMaxCount fb.len) - s.count).toNat := by
    intro s t hgo hturn
    have hne : s.count.toNat ≠ (UInt16.ofNat (picMaxCount fb.len)).toNat := fun h => by
      simp [UInt16.toNat.inj h] at hgo
    have hlt := s.count.toNat_lt
    have hlt' := (UInt16.ofNat (picMaxCount fb.len)).toNat_lt
    have hone : (1 : UInt16).toNat = 1 := rfl
    rw [nodePicTurn_counts fb writeOk hturn]
    simp only [UInt16.toNat_sub, UInt16.toNat_add]
    omega
  have hguard : ∀ s : PicLocals, (s.count != UInt16.ofNat (picMaxCount fb.len)) = true ↔
      (UInt16.ofNat (picMaxCount fb.len) - s.count).toNat ≠ 0 := by
    intro s
    rw [bne_iff_ne, ne_eq, ne_eq, ← UInt16.toNat_inj]
    have hlt := s.count.toNat_lt
    have hlt' := (UInt16.ofNat (picMaxCount fb.len)).toNat_lt
    rw [UInt16.toNat_sub]
    omega
  have hmax : picMaxCount fb.len < 65536 := Nat.mod_lt _ (by decide)
  have hturns : (UInt16.ofNat (picMaxCount fb.len) - 1).toNat =
      (picMaxCount fb.len + 65535) % 65536 := by
    rw [UInt16.toNat_sub, UInt16.toNat_ofNat']
    have hone : (1 : UInt16).toNat = 1 := rfl
    omega
  have hsize : (UInt32.ofNat fb.len).toNat = fb.len := UInt32.toNat_ofNat_of_lt' hlen
  rw [NodeSendPicEnds, nodeSendPic_some]
  simp only [leaves_iff_turns _ hguard hcount, exists_eq_left, hturns]
  have hend := nodePicTurns fb writeOk ((picMaxCount fb.len + 65535) % 65536) 0
    (UInt32.ofNat fb.len) (picStarted (picMaxCount fb.len) io) (by omega)
  rw [hsize] at hend
  rw [← hend]
  rfl

end Node

section Root
variable (fb : CameraFb) (p maxCount : ℕ) (sendOk : ℕ → Bool)

/-- The packet number `i + 1` with `size` bytes of the picture, built in the slot and sent. -/
def picSent (i size : ℕ) (io : Io) : Io :=
  sendSlot p (io.modify (picPacket (p + tNode) (i + 1) maxCount size
    (fb.slice (packetBodyLen * i) packetBodyLen)))

/-- Behind the loop: the rest of the picture, if there is one. -/
def rootPhotoLast : Io × ℕ × ℕ → Io
  | (io, count, size) =>
    if size = 0 then io
    else sendSlot p (io.modify (picPacket (p + tNode) count maxCount size
      (fb.slice (packetBodyLen * (count - 1)) packetBodyLen)))

theorem rootPhotoLast_succ (i size : ℕ) (io : Io) :
    rootPhotoLast fb p maxCount (io, i + 1, size) =
      if size = 0 then io else picSent fb p maxCount i size io := rfl

theorem rootPhotoLoop_succ (n i size : ℕ) (io : Io) :
    rootPhotoLoop fb p maxCount sendOk (n + 1) (i + 1) size io =
      if sendOk (i + 1) then
        rootPhotoLoop fb p maxCount sendOk n (i + 1 + 1) (size - packetBodyLen)
          (picSent fb p maxCount i packetBodyLen io)
      else (picSent fb p maxCount i packetBodyLen io, i + 1, 0) := rfl

theorem rootSendPhoto_some {w : World} {fd : ℕ} (hsock : w.gSockfd = some fd) {e : CmdEnv}
    (hcam : e.camera = some fb) (io : Io) :
    rootSendPhoto w p e io = rootPhotoLast fb p (picMaxCount fb.len)
      (rootPhotoLoop fb p (picMaxCount fb.len) e.sendOk (picMaxCount fb.len - 1) 1 fb.len
        (io.modify fun m => m.store p w.gSelfMac.val)) := by
  rw [rootSendPhoto, hsock, hcam]
  rfl

theorem picPacket_uInt16 (a i size : ℕ) (data : List UInt8) :
    picPacket a (UInt16.ofNat (i + 1)).toNat maxCount size data =
      picPacket a (i + 1) maxCount size data := by
  funext m
  rw [picPacket, word16_uInt16, picPacket]

theorem rootPicTurn_locals {i : ℕ} (h : i + 1 < 65536) (io : Io) (size : UInt32) :
    rootPicTurn fb p maxCount sendOk (picLocals io size i) =
      if sendOk (i + 1) then
        (picLocals (picSent fb p maxCount i packetBodyLen io)
          (size - UInt32.ofNat packetBodyLen) (i + 1), false)
      else (picLocals (picSent fb p maxCount i packetBodyLen io) 0 i, true) := by
  have hcount : (UInt16.ofNat (i + 1)).toNat = i + 1 := UInt16.toNat_ofNat_of_lt' h
  simp only [rootPicTurn, picLocals_next]
  simp only [picLocals, hcount]
  rfl

theorem rootPicEnd_locals (i : ℕ) (io : Io) (size : UInt32) :
    rootPicEnd fb p maxCount (picLocals io size i) =
      rootPhotoLast fb p maxCount (io, i + 1, size.toNat) := by
  have hzero : size = 0 ↔ size.toNat = 0 := by
    rw [← UInt32.toNat_inj]
    rfl
  rw [rootPhotoLast_succ, rootPicEnd]
  simp only [picLocals, picPacket_uInt16, hzero]
  rfl

theorem rootPicTurns (n i : ℕ) (size : UInt32) (io : Io) (h : i + n < 65535)
    (hsize : packetBodyLen * n ≤ size.toNat) :
    rootPicEnd fb p maxCount (turns (rootPicTurn fb p maxCount sendOk) n
        (picLocals io size i)).1 =
      rootPhotoLast fb p maxCount
        (rootPhotoLoop fb p maxCount sendOk n (i + 1) size.toNat io) := by
  induction n generalizing i size io with
  | zero => exact rootPicEnd_locals fb p maxCount i io size
  | succ n ih =>
    rw [turns, rootPicTurn_locals fb p maxCount sendOk (by omega), rootPhotoLoop_succ]
    by_cases hok : sendOk (i + 1) = true
    · rw [Nat.mul_succ] at hsize
      have hleft : (size - UInt32.ofNat packetBodyLen).toNat = size.toNat - packetBodyLen := by
        rw [UInt32.toNat_sub, show (UInt32.ofNat packetBodyLen).toNat = packetBodyLen from rfl]
        have hlt := size.toNat_lt
        simp only [packetBodyLen, childPacketLen, packetHeaderLen] at hsize ⊢
        omega
      rw [if_pos hok, if_pos hok, ← hleft]
      exact ih (i + 1) _ _ (by omega) (by omega)
    · rw [if_neg hok, if_neg hok]
      exact rootPicEnd_locals fb p maxCount i _ 0

theorem rootPicTurn_counts {s t : PicLocals}
    (h : rootPicTurn fb p maxCount sendOk s = (t, false)) : t.count = s.count + 1 := by
  unfold rootPicTurn at h
  dsimp only at h
  split at h
  · cases h
    rfl
  · cases h

/-- `root_send_photo` returns for every picture and whatever its sends return, and what it has
done by then is `rootSendPhoto`. -/
theorem rootSendPhoto_ends (hlen : fb.len < 4294967296) {w : World} {fd : ℕ}
    (hsock : w.gSockfd = some fd) {e : CmdEnv} (hcam : e.camera = some fb) (io out : Io) :
    RootSendPhotoEnds fb w.gSelfMac p e.sendOk io out ↔ out = rootSendPhoto w p e io := by
  have hmax : picMaxCount fb.len < 65536 := Nat.mod_lt _ (by decide)
  have hword : (UInt16.ofNat (picMaxCount fb.len)).toNat = picMaxCount fb.len :=
    UInt16.toNat_ofNat_of_lt' hmax
  have hone : (1 : UInt16).toNat = 1 := rfl
  have hguard : ∀ s : PicLocals, decide (s.count < UInt16.ofNat (picMaxCount fb.len)) = true ↔
      picMaxCount fb.len - s.count.toNat ≠ 0 := by
    intro s
    rw [decide_eq_true_eq, UInt16.lt_iff_toNat_lt, hword]
    omega
  have hcount : ∀ s t : PicLocals,
      decide (s.count < UInt16.ofNat (picMaxCount fb.len)) = true →
      rootPicTurn fb p (picMaxCount fb.len) e.sendOk s = (t, false) →
      picMaxCount fb.len - t.count.toNat + 1 = picMaxCount fb.len - s.count.toNat := by
    intro s t hgo hturn
    rw [decide_eq_true_eq, UInt16.lt_iff_toNat_lt, hword] at hgo
    rw [rootPicTurn_counts fb p _ _ hturn, UInt16.toNat_add, hone]
    omega
  have hturns : packetBodyLen * (picMaxCount fb.len - 1) ≤ fb.len := by
    have hdiv := Nat.mod_le ((fb.len + packetBodyLen - 1) / packetBodyLen) 65536
    rw [← picMaxCount] at hdiv
    simp only [packetBodyLen, childPacketLen, packetHeaderLen] at hdiv ⊢
    omega
  have hsize : (UInt32.ofNat fb.len).toNat = fb.len := UInt32.toNat_ofNat_of_lt' hlen
  rw [RootSendPhotoEnds, rootSendPhoto_some fb p hsock hcam]
  simp only [leaves_iff_turns _ hguard hcount, exists_eq_left, hone]
  have hend := rootPicTurns fb p (picMaxCount fb.len) e.sendOk (picMaxCount fb.len - 1) 0
    (UInt32.ofNat fb.len) (io.modify fun m => m.store p w.gSelfMac.val) (by omega)
    (by rwa [hsize])
  rw [hsize] at hend
  rw [← hend]
  rfl

end Root

/-! ## The packets of the root -/

/-- The packets as sent to the server, behind the root's address and the latest first. -/
def sendsOf (gSelfMac : Mac) (packets : List (List UInt8)) : List Event :=
  (packets.map fun packet => Event.send (gSelfMac.val ++ packet)).reverse

theorem sendsOf_cons (gSelfMac : Mac) (packet : List UInt8) (packets : List (List UInt8))
    (trace : List Event) :
    sendsOf gSelfMac packets ++ .send (gSelfMac.val ++ packet) :: trace =
      sendsOf gSelfMac (packet :: packets) ++ trace := by
  simp [sendsOf]

section Sent
variable (fb : CameraFb) {p : ℕ} {gSelfMac : Mac}

theorem picPacket_carries (count maxCount : ℕ) (a i size : ℕ) (m : Mem)
    (hsize : size ≤ packetBodyLen) :
    PicCarries count maxCount (fb.slice i size)
      ((picPacket a count maxCount size (fb.slice i packetBodyLen) m).load a childPacketLen) := by
  have hdata := load_store_self (((m.store a (word16 count)).store (a + u16MaxCount)
    (word16 maxCount)).store (a + u16DataLen) (word16 size)) (a + u8Data)
    (fb.slice i packetBodyLen)
  rw [fb.slice_length] at hdata
  refine ⟨by simp, ?_, ?_⟩
  · have hcount := load_store_self m a (word16 count)
    have hmax := load_store_self (m.store a (word16 count)) (a + u16MaxCount) (word16 maxCount)
    have hlen := load_store_self ((m.store a (word16 count)).store (a + u16MaxCount)
      (word16 maxCount)) (a + u16DataLen) (word16 size)
    rw [fb.slice_length, Mem.load_take _ _ _ _ (by simp), picPacket,
      load_store_off _ _ _ _ _ (.inl (by simp)), show 6 = 2 + 2 + 2 from rfl, load_append,
      load_append, load_store_off _ (a + u16DataLen) a _ _ (.inl (by simp)),
      load_store_off _ (a + u16MaxCount) a _ _ (.inl (by simp)),
      load_store_off _ (a + u16DataLen) (a + 2) _ _ (.inl (by simp))]
    exact congrArg₂ _ (congrArg₂ _ hcount hmax) hlen
  · rw [fb.slice_length, Mem.load_drop _ _ _ _ (by simp), Mem.load_take _ _ _ _ (by exact hsize)]
    have htake := congrArg (List.take size) hdata
    rw [Mem.load_take _ _ _ _ hsize] at htake
    rw [picPacket, show 6 = u8Data from rfl, htake]
    exact Mem.load_take _ _ _ _ hsize

theorem picSent_spec (maxCount i : ℕ) {size : ℕ} {io : Io} (hself : io.mem.load p 6 = gSelfMac.val)
    (hsize : size ≤ packetBodyLen) :
    ∃ packet, PicCarries (i + 1) maxCount (fb.slice (packetBodyLen * i) size) packet ∧
      (picSent fb p maxCount i size io).trace = .send (gSelfMac.val ++ packet) :: io.trace ∧
      (picSent fb p maxCount i size io).mem.load p 6 = gSelfMac.val := by
  have hkept : (picSent fb p maxCount i size io).mem.load p 6 = gSelfMac.val := by
    have hbelow := picPacket_below (q := p + 6) (p := p + tNode) (m := io.mem) (i + 1) maxCount size
      (fb.slice (packetBodyLen * i) packetBodyLen) le_rfl
    rw [← hself]
    exact hbelow.load le_rfl
  refine ⟨_, picPacket_carries fb (i + 1) maxCount (p + tNode) (packetBodyLen * i) size io.mem
    hsize, ?_, hkept⟩
  rw [← hkept]
  simp only [picSent, sendSlot, Io.emit_trace, Io.emit_mem, Io.modify_mem, Io.modify_trace]
  rw [show rootPacketLen = 6 + childPacketLen from rfl, load_append]
  rfl

theorem rootPhotoLoop_packets {sendOk : ℕ → Bool} (hok : ∀ i, sendOk i = true)
    (maxCount n i size : ℕ) (io : Io) (hsize : packetBodyLen * n ≤ size)
    (hself : io.mem.load p 6 = gSelfMac.val) :
    ∃ packets io', rootPhotoLoop fb p maxCount sendOk n (i + 1) size io =
        (io', i + n + 1, size - packetBodyLen * n) ∧
      io'.trace = sendsOf gSelfMac packets ++ io.trace ∧ packets.length = n ∧
      (∀ j (h : j < packets.length), PicCarries (i + j + 1) maxCount
        (fb.slice (packetBodyLen * (i + j)) packetBodyLen) packets[j]) ∧
      io'.mem.load p 6 = gSelfMac.val := by
  induction n generalizing i size io with
  | zero => exact ⟨[], io, rfl, rfl, rfl, by simp, hself⟩
  | succ n ih =>
    obtain ⟨packet, hpacket, htrace, hkept⟩ :=
      picSent_spec fb maxCount i hself le_rfl
    rw [Nat.mul_succ] at hsize
    obtain ⟨packets, io', hloop, hsent, hlen, hpic, hself'⟩ := ih (i + 1) (size - packetBodyLen)
      (picSent fb p maxCount i packetBodyLen io) (by omega) hkept
    refine ⟨packet :: packets, io', ?_, ?_, congrArg (· + 1) hlen,
      forall_getElem_cons (P := fun j => PicCarries (j + 1) maxCount
        (fb.slice (packetBodyLen * j) packetBodyLen)) hpacket hpic, hself'⟩
    · rw [rootPhotoLoop_succ, if_pos (hok _), hloop, Nat.mul_succ, Nat.sub_sub,
        Nat.add_comm packetBodyLen, show i + 1 + n = i + (n + 1) by omega]
    · rw [hsent, htrace, sendsOf_cons]

/-- The root's packets of a picture that fits the count, when no send fails. -/
theorem rootSendPhoto_packets {w : World} {fd : ℕ} (hsock : w.gSockfd = some fd) {e : CmdEnv}
    (hcam : e.camera = some fb) (hok : ∀ i, e.sendOk i = true) (io : Io) (hpos : 0 < fb.len)
    (hfit : fb.len ≤ packetBodyLen * 65535) :
    ∃ packets, (rootSendPhoto w p e io).trace = sendsOf w.gSelfMac packets ++ io.trace ∧
      packets.length = picMaxCount fb.len ∧
      ∀ i (h : i < packets.length),
        PicCarries (i + 1) (picMaxCount fb.len) (picPart fb i) packets[i] := by
  obtain ⟨hone, -, hlt, hle⟩ := picMaxCount_bounds fb.len hpos hfit
  have hself := load_store_self io.mem p w.gSelfMac.val
  rw [w.gSelfMac.2] at hself
  obtain ⟨packets, io', hloop, hsent, hlen, hpic, hself'⟩ := rootPhotoLoop_packets fb hok
    (picMaxCount fb.len) (picMaxCount fb.len - 1) 0 fb.len
    (io.modify fun m => m.store p w.gSelfMac.val) hlt.le hself
  have hend : picMaxCount fb.len - 1 + 1 = picMaxCount fb.len := by omega
  obtain ⟨hrest, hrest'⟩ := picLast_bounds fb.len hpos hfit
  obtain ⟨packet, hpacket, htrace, -⟩ := picSent_spec fb (picMaxCount fb.len)
    (picMaxCount fb.len - 1) hself' hrest'
  rw [← picPart_last fb (by rwa [hend])] at hpacket
  have hparts := picParts_full fb hlt.le hlen.le hpic
  rw [rootSendPhoto_some fb p hsock hcam, hloop, rootPhotoLast_succ, Nat.zero_add,
    if_neg (by omega)]
  refine ⟨packets ++ [packet], ?_, by rw [List.length_append, hlen]; exact hend,
    forall_getElem_concat hparts (by rwa [hlen])⟩
  rw [htrace, hsent]
  simp [sendsOf]

end Sent

/-! ## What the packets carry -/

def word16At (packet : List UInt8) (a : ℕ) : ℕ :=
  (packet.getD a 0).toNat + 256 * (packet.getD (a + 1) 0).toNat

/-- `u16Count`, `u16MaxCount` and `u16DataLen`. -/
def picFields (packet : List UInt8) : ℕ × ℕ × ℕ :=
  (word16At packet 0, word16At packet u16MaxCount, word16At packet u16DataLen)

/-- The first `u16DataLen` bytes of `u8Data`. -/
def picBytes (packet : List UInt8) : List UInt8 :=
  (packet.drop u8Data).take (word16At packet u16DataLen)

/-- The fields of the packets of `n` bytes, the last of which has `last` of them. -/
def picStream (n last : ℕ) : List (ℕ × ℕ × ℕ) :=
  let maxCount := (n + packetBodyLen - 1) / packetBodyLen
  (List.range maxCount).map fun i =>
    (i + 1, maxCount, if i + 1 = maxCount then last else packetBodyLen)

theorem word16_getD (pre rest : List UInt8) {n : ℕ} (hn : n < 65536) :
    word16At (pre ++ word16 n ++ rest) pre.length = n := by
  have hword : word16At (pre ++ word16 n ++ rest) pre.length =
      (UInt8.ofNat n).toNat + 256 * (UInt8.ofNat (n / 256)).toNat := by
    rw [word16At, List.append_assoc, List.getD_append_right _ _ _ _ le_rfl,
      List.getD_append_right _ _ _ _ (Nat.le_succ _), Nat.sub_self, Nat.succ_sub le_rfl,
      Nat.sub_self]
    rfl
  rw [hword, UInt8.toNat_ofNat', UInt8.toNat_ofNat']
  omega

section Carried
variable {count maxCount : ℕ} {data packet : List UInt8}

theorem PicCarries.fields (h : PicCarries count maxCount data packet) (hcount : count < 65536)
    (hmax : maxCount < 65536) (hdata : data.length < 65536) :
    picFields packet = (count, maxCount, data.length) := by
  have hsplit : packet = word16 count ++ word16 maxCount ++ word16 data.length ++
      packet.drop 6 := by
    rw [← h.header, List.take_append_drop]
  have h0 := word16_getD [] (word16 maxCount ++ word16 data.length ++ packet.drop 6) hcount
  have h2 := word16_getD (word16 count) (word16 data.length ++ packet.drop 6) hmax
  have h4 := word16_getD (word16 count ++ word16 maxCount) (packet.drop 6) hdata
  rw [List.nil_append] at h0
  simp only [← List.append_assoc] at h0 h2
  rw [picFields, hsplit]
  exact congrArg₂ _ h0 (congrArg₂ _ h2 h4)

theorem PicCarries.bytes (h : PicCarries count maxCount data packet) (hcount : count < 65536)
    (hmax : maxCount < 65536) (hdata : data.length < 65536) : picBytes packet = data := by
  have hlen : word16At packet u16DataLen = data.length :=
    congrArg (·.2.2) (h.fields hcount hmax hdata)
  rw [picBytes, hlen]
  exact h.data

end Carried

theorem picMaxCount_eq (size : ℕ) (hfit : size ≤ packetBodyLen * 65535) :
    picMaxCount size = Blocks.num packetBodyLen size :=
  Nat.mod_eq_of_lt (by simp only [packetBodyLen, childPacketLen, packetHeaderLen] at *; omega)

theorem picPart_short (fb : CameraFb) (i : ℕ) : (picPart fb i).length < 65536 := by
  rw [picPart_length]
  exact (Nat.min_le_left _ _).trans_lt (by decide)

theorem picParts_flatMap (fb : CameraFb) :
    (List.range (Blocks.num packetBodyLen fb.len)).flatMap (picPart fb) = fb.slice 0 fb.len :=
  have hadd (a m k : ℕ) : fb.slice a (m + k) = fb.slice a m ++ fb.slice (a + m) k :=
    load_append _ a m k
  Blocks.flatMap_blocks (fun _ => rfl) hadd (by decide) fb.len

/-- Whichever way they were sent, the packets have the fields and the bytes of the picture. -/
theorem packets_stream (fb : CameraFb) (hpos : 0 < fb.len) (hfit : fb.len ≤ packetBodyLen * 65535)
    {packets : List (List UInt8)} (hlen : packets.length = picMaxCount fb.len)
    (hpic : ∀ i (h : i < packets.length),
      PicCarries (i + 1) (picMaxCount fb.len) (picPart fb i) packets[i]) :
    packets.map picFields =
        picStream fb.len (fb.len - packetBodyLen * (picMaxCount fb.len - 1)) ∧
      packets.flatMap picBytes = fb.slice 0 fb.len := by
  obtain ⟨-, hmax, -, -⟩ := picMaxCount_bounds fb.len hpos hfit
  have hnum := picMaxCount_eq fb.len hfit
  have hsizes : ∀ i < packets.length, (picPart fb i).length =
      if i + 1 = picMaxCount fb.len then fb.len - packetBodyLen * (picMaxCount fb.len - 1)
      else packetBodyLen := by
    intro i hi
    rw [hlen, hnum] at hi
    have hlast := Blocks.last_iff (by decide) hi
    rw [picPart_length, Blocks.size, hnum]
    split
    · next hend =>
      rw [← hend, Nat.add_sub_cancel, Nat.mul_comm packetBodyLen]
      exact Nat.min_eq_right (by have := hlast.mp hend; omega)
    · next hend => exact Nat.min_eq_left (by have := hlast.not.mp hend; omega)
  constructor
  · refine List.ext_getElem ?_ fun i h1 h2 => ?_
    · rw [List.length_map, hlen, hnum, picStream, List.length_map, List.length_range]
      rfl
    · have hi : i < packets.length := by simpa using h1
      have hceil : (fb.len + packetBodyLen - 1) / packetBodyLen = picMaxCount fb.len := hnum.symm
      rw [List.getElem_map, (hpic i hi).fields (by omega) hmax (picPart_short fb i), hsizes i hi]
      simp only [picStream, List.getElem_map, List.getElem_range, hceil]
  · rw [← picParts_flatMap, ← hnum, ← hlen, List.flatMap_def, List.flatMap_def]
    refine congrArg _ (List.ext_getElem (by simp) fun i h1 h2 => ?_)
    have hi : i < packets.length := by simpa using h1
    simp only [List.getElem_map, List.getElem_range]
    exact (hpic i hi).bytes (by omega) hmax (picPart_short fb i)

/-! ## The two senders -/

theorem nodePhotoLoop_ok (fb : CameraFb) {writeOk : ℕ → Bool} (hok : ∀ i, writeOk i = true)
    (n i size : ℕ) (io : Io) : ∃ io' l, nodePhotoLoop fb writeOk n i size io = (io', some l) := by
  induction n generalizing i size io with
  | zero => exact ⟨io, (i, size), rfl⟩
  | succ n ih =>
    rw [nodePhotoLoop_succ, if_pos (hok i)]
    exact ih ..

theorem nodeSendPic_ok (fb : CameraFb) {writeOk : ℕ → Bool} (hok : ∀ i, writeOk i = true)
    (io : Io) : (nodeSendPic (some fb) writeOk io).2 = true := by
  obtain ⟨io', ⟨i, size⟩, hloop⟩ := nodePhotoLoop_ok fb hok
    ((picMaxCount fb.len + 65535) % 65536) 0 fb.len (picStarted (picMaxCount fb.len) io)
  rw [nodeSendPic_some, hloop]
  exact hok i

/-- **The packets of a picture.** Whatever the frame, if it fits the count and nothing fails, both
functions return, `count` runs from 1 to the number of packets the frame takes, every packet is
full but the last, and the bytes of the packets put together are the frame. -/
theorem photo_senders_agree (fb : CameraFb) (hpos : 1 ≤ fb.len)
    (hfit : fb.len ≤ 65535 * packetBodyLen) (writeOk : ℕ → Bool) (hwrite : ∀ i, writeOk i = true)
    (io io' : Io) (p : ℕ) (w : World) (fd : ℕ) (hsock : w.gSockfd = some fd) (e : CmdEnv)
    (hcam : e.camera = some fb) (hsend : ∀ i, e.sendOk i = true) :
    (∀ out, NodeSendPicEnds fb writeOk io out ↔ out = nodeSendPic (some fb) writeOk io) ∧
      (∀ out, RootSendPhotoEnds fb w.gSelfMac p e.sendOk io' out ↔
        out = rootSendPhoto w p e io') ∧
      ∃ last node root, 1 ≤ last ∧ last ≤ packetBodyLen ∧
        (nodeSendPic (some fb) writeOk io).1.trace = writesOf node ++ io.trace ∧
        (rootSendPhoto w p e io').trace = sendsOf w.gSelfMac root ++ io'.trace ∧
        node.map picFields = picStream fb.len last ∧ root.map picFields = picStream fb.len last ∧
        node.flatMap picBytes = fb.slice 0 fb.len ∧ root.flatMap picBytes = fb.slice 0 fb.len := by
  rw [Nat.mul_comm] at hfit
  have hbits : fb.len < 4294967296 := hfit.trans_lt (by decide)
  obtain ⟨node, hnode, hnodePic, -, hnodeAll⟩ := nodeSendPic_packets fb writeOk io hpos hfit
  obtain ⟨root, hroot, hrootLen, hrootPic⟩ :=
    rootSendPhoto_packets fb (p := p) hsock hcam hsend io' hpos hfit
  have hnodeLen := hnodeAll (nodeSendPic_ok fb hwrite io)
  obtain ⟨hnodeFields, hnodeBytes⟩ := packets_stream fb hpos hfit hnodeLen hnodePic
  obtain ⟨hrootFields, hrootBytes⟩ := packets_stream fb hpos hfit hrootLen hrootPic
  obtain ⟨hlast, hlast'⟩ := picLast_bounds fb.len hpos hfit
  exact ⟨nodeSendPic_ends fb writeOk hbits io, rootSendPhoto_ends fb p hbits hsock hcam io', _,
    node, root, hlast, hlast', hnode, hroot, hnodeFields, hrootFields, hnodeBytes, hrootBytes⟩

/-- A picture that takes two packets, the second with one byte. -/
theorem photo_senders_agree_two :
    let fb : CameraFb := ⟨fun _ => 7, 1425⟩
    let io : Io := ⟨⟨fun _ => 0, []⟩, []⟩
    let w : World := ⟨macOf 2, some 3, [], 0, serverQueueCreate, [], .boot⟩
    let e : CmdEnv := { idleCmd with camera := some fb }
    ∃ last node root, 1 ≤ last ∧ last ≤ packetBodyLen ∧
      (nodeSendPic (some fb) (fun _ => true) io).1.trace = writesOf node ++ io.trace ∧
      (rootSendPhoto w 0 e io).trace = sendsOf w.gSelfMac root ++ io.trace ∧
      node.map picFields = picStream fb.len last ∧ root.map picFields = picStream fb.len last ∧
      node.flatMap picBytes = fb.slice 0 fb.len ∧ root.flatMap picBytes = fb.slice 0 fb.len :=
  (photo_senders_agree _ (by decide) (by decide) _ (fun _ => rfl) _ _ _ _ 3 rfl _ rfl
    fun _ => rfl).2.2

end EspMesh
