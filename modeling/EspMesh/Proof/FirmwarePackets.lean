import EspMesh.Library.Blocks
import EspMesh.Library.StepRuns
import EspMesh.Model.MupgradeRoot

/-! # The packets of a firmware

Whatever messages come in between, a packet that `mupgrade_firmware_send` writes is one block of
the firmware as it is in flash.
-/

namespace EspMesh
set_option autoImplicit false
set_option maxRecDepth 20000
open ByteMem StepRuns

/-! ## What is sent -/

namespace SendCall
variable (c : SendCall)

def packetSizeAt (seq : ℕ) : ℕ :=
  if seq + 1 = c.packetNum then c.lastPacketSize else mupgradePacketMaxSize

/-- The packet has the bytes of its place in the firmware. -/
structure PacketAt (seq size : ℕ) (data : ℕ → UInt8) : Prop where
  inside : seq < c.packetNum
  length : size = c.packetSizeAt seq
  bytes : ∀ k < size, data k = c.partition (seq * mupgradePacketMaxSize + k)

end SendCall

/-- Only the firmware of the call matters. -/
theorem SendCall.PacketAt.congr {c c' : SendCall} {seq size : ℕ} {data : ℕ → UInt8}
    (h : c'.PacketAt seq size data) (htotal : c'.totalSize = c.totalSize)
    (hpartition : c'.partition = c.partition) : c.PacketAt seq size data := by
  have hnum : c'.packetNum = c.packetNum := by
    rw [SendCall.packetNum, htotal, SendCall.packetNum]
  have hsize : c'.packetSizeAt seq = c.packetSizeAt seq := by
    rw [SendCall.packetSizeAt, hnum, SendCall.lastPacketSize, htotal, SendCall.packetSizeAt,
      SendCall.lastPacketSize]
  exact ⟨hnum ▸ h.inside, hsize ▸ h.length, hpartition ▸ h.bytes⟩

theorem packetSizeAt_le (c : SendCall) (seq : ℕ) : c.packetSizeAt seq ≤ mupgradePacketMaxSize := by
  have hmod := Nat.mod_lt c.totalSize (by decide : 0 < mupgradePacketMaxSize)
  unfold SendCall.packetSizeAt SendCall.lastPacketSize
  split
  · split
    · exact le_refl _
    · exact hmod.le
  · exact le_refl _

/-- The locals about the packet, and what has been written. -/
structure Cargo where
  seq : ℕ
  packetSize : ℕ
  packetData : Mem
  writes : List MupgradeWrite

def Send.cargo (s : Send) : Cargo := ⟨s.seq, s.packetSize, s.packetData, s.writes⟩

/-- A packet is being made. -/
def SendPc.packing : SendPc → Bool
  | .flash | .drain | .write => true
  | _ => false

structure Packing (c : SendCall) (s : Send) : Prop where
  flash : s.pc = .flash → s.seq < c.packetNum ∧ s.packetSize = c.packetSizeAt s.seq
  packet : s.pc = .drain ∨ s.pc = .write → c.PacketAt s.seq s.packetSize s.packetData.byte
  written : ∀ dests seq size data, .packet dests seq size data ∈ s.writes →
    c.PacketAt seq size fun k => data.getD k 0

section Steps
variable {c : SendCall} {s s' : Send} {q : StatusMessage}

theorem Packing.move (h : Packing c s) (hcargo : s'.cargo = s.cargo)
    (hpc : s'.pc = s.pc ∨ s'.pc.packing = false) : Packing c s' := by
  obtain ⟨hseq, hsize, hdata, hwrites⟩ := Cargo.mk.inj hcargo
  refine ⟨fun hflash => ?_, fun hpacket => ?_, ?_⟩
  · rcases hpc with hpc | hpc
    · rw [hseq, hsize]
      exact h.flash (hpc ▸ hflash)
    · rw [hflash] at hpc
      cases hpc
  · rcases hpc with hpc | hpc
    · rw [hseq, hsize, hdata]
      exact h.packet (hpc ▸ hpacket)
    · rcases hpacket with hpacket | hpacket <;> rw [hpacket] at hpc <;> cases hpc
  · rw [hwrites]
    exact h.written

/-! ## Messages -/

theorem exitIfFinished_cargo (s : Send) : s.exitIfFinished.cargo = s.cargo := by
  unfold Send.exitIfFinished
  split <;> rfl

theorem exitIfFinished_pc (s : Send) :
    s.exitIfFinished.pc = s.pc ∨ s.exitIfFinished.pc.packing = false := by
  unfold Send.exitIfFinished
  split
  · exact .inr rfl
  · exact .inl rfl

theorem finishedReceive_packing (h : Packing c s) : Packing c (s.finishedReceive c q) := by
  unfold Send.finishedReceive
  dsimp only
  split
  · split
    · exact h.move rfl (.inl rfl)
    · exact h.move (exitIfFinished_cargo _) (exitIfFinished_pc _)
  · split
    · exact h.move (exitIfFinished_cargo _) (exitIfFinished_pc _)
    · exact h.move (exitIfFinished_cargo _) (exitIfFinished_pc _)

theorem responseProgress_packing (h : Packing c s) : Packing c (s.responseProgress q) := by
  unfold Send.responseProgress
  dsimp only
  split
  · exact h.move rfl (.inl rfl)
  · split
    · split
      · exact h.move rfl (.inl rfl)
      · exact h.move rfl (.inl rfl)
    · exact h.move rfl (.inl rfl)

theorem responseReceive_packing (h : Packing c s) : Packing c (s.responseReceive c q) := by
  unfold Send.responseReceive
  dsimp only
  split
  · exact h.move rfl (.inl rfl)
  · split
    · exact h.move rfl (.inl rfl)
    · split
      · exact responseProgress_packing (h.move rfl (.inl rfl))
      · exact responseProgress_packing (h.move rfl (.inl rfl))

theorem responseNext_packing (h : Packing c s) (i : ℕ) : Packing c (s.responseNext i) := by
  unfold Send.responseNext
  split
  · exact h.move rfl (.inr rfl)
  · exact h

theorem drainReceive_packing (h : Packing c s) : Packing c (s.drainReceive c q) := by
  unfold Send.drainReceive
  dsimp only
  split
  · split
    · exact h.move rfl (.inl rfl)
    · split
      · exact h.move rfl (.inl rfl)
      · exact h.move (exitIfFinished_cargo _) (exitIfFinished_pc _)
  · split
    · exact h.move (exitIfFinished_cargo _) (exitIfFinished_pc _)
    · exact h.move (exitIfFinished_cargo _) (exitIfFinished_pc _)

/-! ## The other steps -/

theorem Packing.other (h : Packing c s) (hpc : s'.pc.packing = false)
    (hwrites : s'.writes = s.writes) : Packing c s' := by
  refine ⟨fun hflash => ?_, fun hpacket => ?_, by rw [hwrites]; exact h.written⟩
  · rw [hflash] at hpc
    cases hpc
  · rcases hpacket with hpacket | hpacket <;> rw [hpacket] at hpc <;> cases hpc

theorem roundHead_packing (h : Packing c s) : Packing c s.roundHead := by
  unfold Send.roundHead
  split
  · exact h.other rfl rfl
  · exact h.other rfl rfl

theorem requestHead_packing (h : Packing c s) (i : ℕ) : Packing c (s.requestHead i) := by
  unfold Send.requestHead
  split
  · refine ⟨SendPc.noConfusion, fun hpacket => ?_, fun dests seq size data hmem => ?_⟩
    · rcases hpacket with hpacket | hpacket <;> cases hpacket
    · rcases List.mem_cons.mp hmem with heq | hmem
      · cases heq
      · exact h.written dests seq size data hmem
  · split
    · exact h.other rfl rfl
    · exact h.other rfl rfl

theorem packetHead_packing (h : Packing c s) (hpc : s.pc = .packet) :
    Packing c (s.packetHead c) := by
  unfold Send.packetHead
  split
  · rename_i hmore
    split
    · exact h.other (by rw [hpc]; rfl) rfl
    · refine ⟨fun _ => ⟨hmore.2.1, rfl⟩, fun hpacket => ?_, h.written⟩
      rcases hpacket with hpacket | hpacket <;> cases hpacket
  · exact h.other rfl rfl

/-- A byte that was read from flash to the start of a buffer. -/
theorem read_byte (m : Mem) (flash : ℕ → UInt8) (a : ℕ) {n k : ℕ} (hk : k < n) :
    (m.store 0 ((Mem.mk flash []).load a n)).byte k = flash (a + k) := by
  have hbyte := Mem.store_byte_at m 0 k ((Mem.mk flash []).load a n) (by rwa [Mem.load_length])
  rwa [Nat.zero_add, Mem.load_getD _ _ _ _ hk] at hbyte

theorem flashRead_packing (h : Packing c s) (hpc : s.pc = .flash) (ok : Bool) :
    Packing c (s.flashRead c ok) := by
  obtain ⟨hinside, hsize⟩ := h.flash hpc
  unfold Send.flashRead
  cases ok with
  | false => exact h.other rfl rfl
  | true =>
    refine ⟨SendPc.noConfusion, fun _ => ⟨hinside, hsize, fun k hk => ?_⟩, h.written⟩
    exact read_byte s.packetData c.partition _ hk

theorem packetWrite_packing (h : Packing c s) (hpc : s.pc = .write) :
    Packing c (s.packetWrite c) := by
  have hpacket := h.packet (.inr hpc)
  refine ⟨SendPc.noConfusion, fun hnext => ?_, fun dests seq size data hmem => ?_⟩
  · rcases hnext with hnext | hnext <;> cases hnext
  · rcases List.mem_cons.mp hmem with heq | hmem
    · cases heq
      refine ⟨hpacket.inside, hpacket.length, fun k hk => ?_⟩
      have hlt : k < mupgradePacketMaxSize :=
        hk.trans_le (hpacket.length ▸ packetSizeAt_le c s.seq)
      rw [Mem.load_getD _ _ _ _ hlt, Nat.zero_add]
      exact hpacket.bytes k hk
    · exact h.written dests seq size data hmem

/-- **A step.** -/
theorem step_packing (h : Packing c s) (e : SendEvent) : Packing c (s.step c e) := by
  cases e with
  | receive msg =>
    simp only [Send.step]
    split
    · exact finishedReceive_packing h
    · exact h.other rfl rfl
    · exact responseNext_packing (responseReceive_packing h) _
    · exact h.other rfl rfl
    · exact drainReceive_packing h
    · rename_i hpc
      refine ⟨SendPc.noConfusion, fun _ => h.packet (.inl hpc), h.written⟩
    · exact h.move rfl (.inl rfl)
    · exact h.other rfl rfl
    · exact h
  | flash ok =>
    simp only [Send.step]
    split
    · rename_i hpc
      exact flashRead_packing h hpc ok
    · exact h
  | next =>
    simp only [Send.step]
    split
    · exact roundHead_packing h
    · exact requestHead_packing h _
    · rename_i hpc
      exact packetHead_packing h hpc
    · rename_i hpc
      exact packetWrite_packing h hpc
    · exact h.other rfl rfl
    · exact h
  | stop => exact h.move rfl (.inl rfl)

end Steps

theorem start_packing {c : SendCall} {progressArray packetData : ℕ → UInt8} {s : Send}
    (h : mupgradeFirmwareSend c progressArray packetData = some s) : Packing c s := by
  unfold mupgradeFirmwareSend at h
  split at h
  · rw [← Option.some.inj h]
    refine ⟨fun hflash => ?_, fun hpacket => ?_, fun _ _ _ _ hmem => absurd hmem List.not_mem_nil⟩
    · revert hflash
      dsimp only
      split <;> exact SendPc.noConfusion
    · revert hpacket
      dsimp only
      split <;> simp
  · cases h

/-- The packet was written in some run of the function. -/
def Sent (c : SendCall) (seq size : ℕ) (data : ℕ → UInt8) : Prop :=
  ∃ (progressArray packetData : ℕ → UInt8) (s : Send) (es : List SendEvent) (dests : List Mac)
    (bytes : List UInt8), mupgradeFirmwareSend c progressArray packetData = some s ∧
    .packet dests seq size bytes ∈ (run (Send.step c) s es).writes ∧
    data = fun k => bytes.getD k 0

theorem sent_packetAt {c : SendCall} {seq size : ℕ} {data : ℕ → UInt8} (h : Sent c seq size data) :
    c.PacketAt seq size data := by
  obtain ⟨progressArray, packetData, s, es, dests, bytes, hstart, hmem, rfl⟩ := h
  have hpacking : Packing c (run (Send.step c) s es) :=
    run_invariant (I := Packing c) (fun _ e hs => step_packing hs e) (start_packing hstart) es
  exact hpacking.written dests seq size bytes hmem

/-! ## Blocks -/

section Blocks
variable {c : SendCall}

theorem packetNum_eq (h : c.totalSize ≤ mupgradePacketMaxNum * mupgradePacketMaxSize) :
    c.packetNum = Blocks.num mupgradePacketMaxSize c.totalSize := by
  simp only [mupgradePacketMaxNum, mupgradePacketMaxSize] at h
  simp only [SendCall.packetNum, Blocks.num, mupgradePacketMaxSize]
  omega

theorem packetSizeAt_eq (h : c.totalSize ≤ mupgradePacketMaxNum * mupgradePacketMaxSize) {seq : ℕ}
    (hseq : seq < c.packetNum) :
    c.packetSizeAt seq = Blocks.size mupgradePacketMaxSize c.totalSize seq := by
  rw [packetNum_eq h] at hseq
  rw [Blocks.size_eq (by decide) hseq, SendCall.packetSizeAt, packetNum_eq h,
    SendCall.lastPacketSize]

end Blocks

end EspMesh
