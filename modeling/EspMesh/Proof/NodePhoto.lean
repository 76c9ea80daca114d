import EspMesh.Library.Blocks
import EspMesh.Model.NodeTask
import EspMesh.Proof.PhotoArrival

/-! # The packets a node sends of a picture

`node_send_pic` sets the fields that its packets share once and the count before each packet.
What it writes to the root is a photo, cut off where a write fails.
-/

namespace EspMesh
set_option autoImplicit false
open ByteMem Mem

/-- The packets as written to the root, the latest first. -/
def writesOf (packets : List (List UInt8)) : List Event :=
  (packets.map (Event.mwifiWrite none .zero)).reverse

theorem writesOf_cons (data : List UInt8) (packets : List (List UInt8)) (trace : List Event) :
    writesOf packets ++ .mwifiWrite none .zero data :: trace =
      writesOf (data :: packets) ++ trace := by
  simp [writesOf]

/-! ## The header of a packet in the buffer -/

/-- The fields of the packet header behind the count. -/
def PicHeader (maxCount len : ℕ) (m : Mem) : Prop :=
  m.load u16MaxCount 4 = word16 maxCount ++ word16 len

/-- The `node_pic_t` with these fields and these bytes of the picture. -/
structure PicCarries (count maxCount : ℕ) (data packet : List UInt8) : Prop where
  length : packet.length = childPacketLen
  header : packet.take 6 = word16 count ++ word16 maxCount ++ word16 data.length
  data : (packet.drop 6).take data.length = data

theorem PicCarries.picPacket {count maxCount : ℕ} {data packet : List UInt8}
    (h : PicCarries count maxCount data packet) (hcount : count < 65536) (hmax : maxCount < 65536)
    (hlen : data.length ≤ packetBodyLen) : PicPacket count maxCount packet :=
  ⟨h.length, hcount, hmax, data.length, hlen, h.header⟩

theorem picCarries_of_header {count maxCount : ℕ} {m : Mem} {data : List UInt8}
    (hfields : m.load 0 2 = word16 count) (h : PicHeader maxCount data.length m)
    (hlen : data.length ≤ packetBodyLen) :
    PicCarries count maxCount data ((m.store u8Data data).load 0 childPacketLen) := by
  refine ⟨by simp, ?_, ?_⟩
  · rw [Mem.load_take _ _ _ _ (by simp), load_store_off _ _ _ _ _ (.inl (by simp)),
      show 6 = 2 + 4 from rfl, load_append, List.append_assoc]
    exact congrArg₂ _ hfields h
  · rw [Mem.load_drop _ _ _ _ (by simp), Mem.load_take _ _ _ _ (by exact hlen)]
    exact load_store_self m u8Data data

theorem PicHeader.count {maxCount len : ℕ} {m : Mem} (h : PicHeader maxCount len m) (count : ℕ) :
    PicHeader maxCount len (m.store 0 (word16 count)) :=
  (load_store_off _ _ _ _ _ (.inr (by simp))).trans h

theorem PicHeader.data {maxCount len : ℕ} {m : Mem} (h : PicHeader maxCount len m)
    (data : List UInt8) : PicHeader maxCount len (m.store u8Data data) :=
  (load_store_off _ _ _ _ _ (.inl (by simp))).trans h

theorem picHeader_dataLen {maxCount : ℕ} {m : Mem}
    (h : m.load u16MaxCount 2 = word16 maxCount) (len : ℕ) :
    PicHeader maxCount len (m.store u16DataLen (word16 len)) := by
  rw [PicHeader, show 4 = 2 + 2 from rfl, load_append]
  refine congrArg₂ _ ?_ (load_store_self _ u16DataLen (word16 len))
  exact (load_store_off _ _ _ _ _ (.inl (by simp))).trans h

theorem PicHeader.maxCount {maxCount len : ℕ} {m : Mem} (h : PicHeader maxCount len m) :
    m.load u16MaxCount 2 = word16 maxCount := by
  rw [← Mem.load_take _ _ 4 _ (by omega), h]
  rfl

/-! ## The loop -/

/-- One turn of the loop: the packet built in the buffer and written. -/
def picWritten (fb : CameraFb) (i : ℕ) (io : Io) : Io :=
  nodeWrite <| io.modify fun m => m.store 0 (word16 (i + 1))
    |>.store u8Data (fb.slice (packetBodyLen * i) packetBodyLen)

theorem nodePhotoLoop_succ (fb : CameraFb) (writeOk : ℕ → Bool) (n i size : ℕ) (io : Io) :
    nodePhotoLoop fb writeOk (n + 1) i size io =
      if writeOk i then
        nodePhotoLoop fb writeOk n (i + 1) ((size + 4294967296 - packetBodyLen) % 4294967296)
          (picWritten fb i io)
      else (picWritten fb i io, none) := by
  rw [nodePhotoLoop, picWritten]

theorem CameraFb.slice_length (fb : CameraFb) (a n : ℕ) : (fb.slice a n).length = n :=
  load_length _ _ _

theorem picWritten_spec (fb : CameraFb) {i maxCount : ℕ} {io : Io}
    (hhead : PicHeader maxCount packetBodyLen io.mem) :
    ∃ packet, PicCarries (i + 1) maxCount (fb.slice (packetBodyLen * i) packetBodyLen) packet ∧
      (picWritten fb i io).trace = .mwifiWrite none .zero packet :: io.trace ∧
      PicHeader maxCount packetBodyLen (picWritten fb i io).mem := by
  refine ⟨_, picCarries_of_header (load_store_self _ 0 _) ?_ (fb.slice_length ..).le, rfl,
    (hhead.count _).data _⟩
  rw [fb.slice_length]
  exact hhead.count _

theorem forall_getElem_cons {P : ℕ → List UInt8 → Prop} {packet : List UInt8}
    {packets : List (List UInt8)} {i : ℕ} (hpacket : P i packet)
    (h : ∀ j (hj : j < packets.length), P (i + 1 + j) packets[j]) :
    ∀ j (hj : j < (packet :: packets).length), P (i + j) (packet :: packets)[j] := by
  intro j hj
  cases j with
  | zero => exact hpacket
  | succ j =>
    rw [List.getElem_cons_succ, show i + (j + 1) = i + 1 + j by omega]
    exact h j (Nat.lt_of_succ_lt_succ hj)

/-- The loop writes the packets from number `i + 1` on, and stops behind a failed one. -/
theorem nodePhotoLoop_packets (fb : CameraFb) (writeOk : ℕ → Bool) (maxCount n i size : ℕ)
    (io : Io) (hsize : packetBodyLen * n ≤ size) (hbits : size < 4294967296)
    (hhead : PicHeader maxCount packetBodyLen io.mem) :
    ∃ packets io' left, nodePhotoLoop fb writeOk n i size io = (io', left) ∧
      io'.trace = writesOf packets ++ io.trace ∧ packets.length ≤ n ∧
      (∀ j (h : j < packets.length), PicCarries (i + j + 1) maxCount
        (fb.slice (packetBodyLen * (i + j)) packetBodyLen) packets[j]) ∧
      ∀ l ∈ left, l = (i + n, size - packetBodyLen * n) ∧ packets.length = n ∧
        PicHeader maxCount packetBodyLen io'.mem := by
  induction n generalizing i size io with
  | zero =>
    refine ⟨[], io, some (i, size), rfl, rfl, le_rfl, by simp, fun l hl => ?_⟩
    rw [← Option.some.inj hl]
    exact ⟨rfl, rfl, hhead⟩
  | succ n ih =>
    obtain ⟨packet, hpacket, htrace, hkept⟩ := picWritten_spec fb (i := i) hhead
    rw [Nat.mul_succ] at hsize
    rw [nodePhotoLoop_succ]
    by_cases hok : writeOk i = true
    · have hleft : (size + 4294967296 - packetBodyLen) % 4294967296 = size - packetBodyLen := by
        simp only [packetBodyLen, childPacketLen, packetHeaderLen] at hsize ⊢
        omega
      obtain ⟨packets, io', left, hloop, hsent, hle, hpic, hend⟩ := ih (i + 1)
        (size - packetBodyLen) (picWritten fb i io) (by omega) (by omega) hkept
      refine ⟨packet :: packets, io', left, ?_, ?_, Nat.succ_le_succ hle,
        forall_getElem_cons (P := fun j => PicCarries (j + 1) maxCount
          (fb.slice (packetBodyLen * j) packetBodyLen)) hpacket hpic, ?_⟩
      · rw [if_pos hok, hleft, hloop]
      · rw [hsent, htrace, writesOf_cons]
      · intro l hl
        obtain ⟨hl, hlen, hkept'⟩ := hend l hl
        refine ⟨?_, congrArg (· + 1) hlen, hkept'⟩
        rw [hl, Nat.mul_succ, Nat.add_right_comm, Nat.add_assoc, Nat.sub_sub,
          Nat.add_comm packetBodyLen]
    · refine ⟨[packet], picWritten fb i io, none, if_neg hok, htrace, by simp, ?_, by simp⟩
      intro j hj
      obtain rfl : j = 0 := by simpa using hj
      exact hpacket

/-! ## The whole picture -/

theorem picMaxCount_bounds (size : ℕ) (hpos : 0 < size) (hfit : size ≤ packetBodyLen * 65535) :
    1 ≤ picMaxCount size ∧ picMaxCount size < 65536 ∧
      packetBodyLen * (picMaxCount size - 1) < size ∧
      size ≤ packetBodyLen * picMaxCount size := by
  have hcount : picMaxCount size = (size + packetBodyLen - 1) / packetBodyLen :=
    Nat.mod_eq_of_lt (by simp only [packetBodyLen, childPacketLen, packetHeaderLen] at *; omega)
  simp only [packetBodyLen, childPacketLen, packetHeaderLen] at *
  omega

theorem picLast_bounds (size : ℕ) (hpos : 0 < size) (hfit : size ≤ packetBodyLen * 65535) :
    1 ≤ size - packetBodyLen * (picMaxCount size - 1) ∧
      size - packetBodyLen * (picMaxCount size - 1) ≤ packetBodyLen := by
  obtain ⟨-, -, hlt, hle⟩ := picMaxCount_bounds size hpos hfit
  rw [Nat.mul_sub, Nat.mul_one] at hlt ⊢
  omega

theorem forall_getElem_concat {P : ℕ → List UInt8 → Prop} {packets : List (List UInt8)}
    {packet : List UInt8} (h : ∀ i (hi : i < packets.length), P i packets[i])
    (hlast : P packets.length packet) (i : ℕ) (hi : i < (packets ++ [packet]).length) :
    P i (packets ++ [packet])[i] := by
  rcases Nat.lt_or_ge i packets.length with hlt | hge
  · rw [List.getElem_append_left hlt]
    exact h i hlt
  · obtain rfl : i = packets.length := by
      rw [List.length_append, List.length_singleton] at hi
      omega
    rwa [List.getElem_concat_length rfl]

/-- The fields that every packet but the last has in common, set in front of the loop. -/
def picStarted (maxCount : ℕ) (io : Io) : Io :=
  io.modify fun m => m.store u16MaxCount (word16 maxCount)
    |>.store u16DataLen (word16 packetBodyLen)

theorem nodeSendPic_some (fb : CameraFb) (writeOk : ℕ → Bool) (io : Io) :
    nodeSendPic (some fb) writeOk io = nodePhotoLast fb writeOk
      (nodePhotoLoop fb writeOk ((picMaxCount fb.len + 65535) % 65536) 0 fb.len
        (picStarted (picMaxCount fb.len) io)) := by
  unfold nodeSendPic picStarted
  dsimp only

theorem nodePhotoLast_spec (fb : CameraFb) (writeOk : ℕ → Bool) (i size : ℕ) {maxCount : ℕ}
    {io : Io} (hsize : size ≤ packetBodyLen) (hhead : PicHeader maxCount packetBodyLen io.mem) :
    ∃ packet, PicCarries (i + 1) maxCount (fb.slice (packetBodyLen * i) size) packet ∧
      (nodePhotoLast fb writeOk (io, some (i, size))).1.trace =
        .mwifiWrite none .zero packet :: io.trace := by
  have hbits : size % 65536 = size :=
    Nat.mod_eq_of_lt (hsize.trans_lt (by decide))
  have hcount := load_store_self io.mem 0 (word16 (i + 1))
  rw [nodePhotoLast, hbits]
  refine ⟨_, picCarries_of_header ?_ ?_ ?_, rfl⟩
  · exact (load_store_off _ _ _ _ _ (.inl (by simp))).trans hcount
  · rw [fb.slice_length]
    exact picHeader_dataLen (hhead.count _).maxCount size
  · rwa [fb.slice_length]

/-- What packet `i` from zero carries of the picture. -/
def picPart (fb : CameraFb) (i : ℕ) : List UInt8 :=
  fb.slice (packetBodyLen * i) (Blocks.size packetBodyLen fb.len i)

theorem picPart_length (fb : CameraFb) (i : ℕ) :
    (picPart fb i).length = Blocks.size packetBodyLen fb.len i := fb.slice_length _ _

theorem picPart_full (fb : CameraFb) {i : ℕ} (h : packetBodyLen * (i + 1) ≤ fb.len) :
    picPart fb i = fb.slice (packetBodyLen * i) packetBodyLen := by
  rw [Nat.mul_succ, Nat.mul_comm] at h
  rw [picPart, Blocks.size, Nat.min_eq_left (by omega)]

theorem picPart_last (fb : CameraFb) {i : ℕ} (h : fb.len ≤ packetBodyLen * (i + 1)) :
    picPart fb i = fb.slice (packetBodyLen * i) (fb.len - packetBodyLen * i) := by
  rw [Nat.mul_succ] at h
  rw [picPart, Blocks.size, Nat.mul_comm i, Nat.min_eq_right (by omega)]

/-- The packets of the loop are full. -/
theorem picParts_full (fb : CameraFb) {packets : List (List UInt8)} {n : ℕ}
    (hfull : packetBodyLen * n ≤ fb.len) (hnum : packets.length ≤ n)
    (h : ∀ i (hi : i < packets.length), PicCarries (0 + i + 1) (picMaxCount fb.len)
      (fb.slice (packetBodyLen * (0 + i)) packetBodyLen) packets[i]) :
    ∀ i (hi : i < packets.length),
      PicCarries (i + 1) (picMaxCount fb.len) (picPart fb i) packets[i] := by
  intro i hi
  have hle := Nat.mul_le_mul_left packetBodyLen (show i + 1 ≤ n by omega)
  rw [picPart_full fb (hle.trans hfull)]
  simpa only [Nat.zero_add] using h i hi

/-- **The packets of a picture.** `node_send_pic` writes the packets of a picture that fits the
count in order, all of them unless a write fails. -/
theorem nodeSendPic_packets (fb : CameraFb) (writeOk : ℕ → Bool) (io : Io) (hpos : 0 < fb.len)
    (hfit : fb.len ≤ packetBodyLen * 65535) :
    ∃ packets, (nodeSendPic (some fb) writeOk io).1.trace = writesOf packets ++ io.trace ∧
      (∀ i (h : i < packets.length),
        PicCarries (i + 1) (picMaxCount fb.len) (picPart fb i) packets[i]) ∧
      packets.length ≤ picMaxCount fb.len ∧
      ((nodeSendPic (some fb) writeOk io).2 = true → packets.length = picMaxCount fb.len) := by
  obtain ⟨hone, hmax, hlt, hle⟩ := picMaxCount_bounds fb.len hpos hfit
  have hturns : (picMaxCount fb.len + 65535) % 65536 = picMaxCount fb.len - 1 := by omega
  have hbits : fb.len < 4294967296 := by
    simp only [packetBodyLen, childPacketLen, packetHeaderLen] at hfit
    omega
  have hhead : PicHeader (picMaxCount fb.len) packetBodyLen
      (picStarted (picMaxCount fb.len) io).mem :=
    picHeader_dataLen (load_store_self io.mem u16MaxCount (word16 _)) packetBodyLen
  obtain ⟨packets, io', left, hloop, hsent, hnum, hpic, hend⟩ := nodePhotoLoop_packets fb writeOk
    (picMaxCount fb.len) (picMaxCount fb.len - 1) 0 fb.len
    (picStarted (picMaxCount fb.len) io) hlt.le hbits hhead
  have hparts := picParts_full fb hlt.le hnum hpic
  rw [nodeSendPic_some, hturns, hloop]
  cases left with
  | none => exact ⟨packets, hsent, hparts, by omega, by simp [nodePhotoLast]⟩
  | some l =>
    obtain ⟨rfl, hlen, hkept⟩ := hend l rfl
    have hend : picMaxCount fb.len - 1 + 1 = picMaxCount fb.len := by omega
    obtain ⟨packet, hpacket, htrace⟩ := nodePhotoLast_spec fb writeOk
      (0 + (picMaxCount fb.len - 1)) (fb.len - packetBodyLen * (picMaxCount fb.len - 1))
      (picLast_bounds fb.len hpos hfit).2 hkept
    rw [Nat.zero_add, hend, ← picPart_last fb (by rwa [hend])] at hpacket
    refine ⟨packets ++ [packet], ?_, forall_getElem_concat hparts (by rwa [hlen, hend]), ?_, ?_⟩
    · rw [htrace, hsent]
      simp [writesOf, picStarted]
    · rw [List.length_append, List.length_singleton]
      omega
    · intro _
      rw [List.length_append, List.length_singleton]
      omega

/-- Without a failed write, what a node sends of a picture is a photo. -/
theorem nodeSendPic_photo (fb : CameraFb) (writeOk : ℕ → Bool) (io : Io) (node : Mac)
    (hpos : 0 < fb.len) (hfit : fb.len ≤ packetBodyLen * 65535)
    (hsent : (nodeSendPic (some fb) writeOk io).2 = true) :
    ∃ photo : Photo, photo.node = node ∧
      (nodeSendPic (some fb) writeOk io).1.trace = writesOf photo.packets ++ io.trace := by
  obtain ⟨packets, htrace, hpic, -, hall⟩ := nodeSendPic_packets fb writeOk io hpos hfit
  obtain ⟨-, hmax, -, -⟩ := picMaxCount_bounds fb.len hpos hfit
  rw [← hall hsent] at hpic hmax
  refine ⟨⟨node, packets, fun i hi => ?_⟩, rfl, htrace⟩
  refine (hpic i hi).picPacket (by omega) hmax ?_
  rw [picPart_length]
  exact Nat.min_le_left _ _

end EspMesh
