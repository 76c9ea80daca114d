import EspMesh.Model.MupgradeNode
import EspMesh.Proof.FirmwarePackets

/-! # A firmware on a device

A bit of the progress array stands for a packet whose write has succeeded, so its bytes are in
the partition, and the sizes of these packets add up to `written_size`. The other way round there
is one reservation: erased flash already holds a packet of `0xff`, and a write that fails may
have left all of its bytes.
-/

namespace EspMesh
set_option autoImplicit false
set_option maxRecDepth 20000
open ByteMem NorFlash StepRuns

/-! ## The bit macros -/

theorem bits_place (bits : ℕ) : bits >>> 3 = bits / 8 ∧ bits &&& 7 = bits % 8 :=
  ⟨Nat.shiftRight_eq_div_pow bits 3, Nat.and_two_pow_sub_one_eq_mod bits 3⟩

theorem mupgradeGetBits_eq (data : ℕ → UInt8) (bits : ℕ) :
    mupgradeGetBits data bits = BitArray.get data bits := by
  rw [mupgradeGetBits, (bits_place bits).1, (bits_place bits).2]
  rfl

theorem mupgradeSetBits_eq (data : ℕ → UInt8) (bits : ℕ) :
    mupgradeSetBits data bits = BitArray.set data bits := by
  rw [mupgradeSetBits, (bits_place bits).1, (bits_place bits).2]
  rfl

theorem mupgradeGetBits_set (data : ℕ → UInt8) (i j : ℕ) :
    mupgradeGetBits (mupgradeSetBits data i) j = (mupgradeGetBits data j || decide (i = j)) := by
  rw [mupgradeGetBits_eq, mupgradeGetBits_eq, mupgradeSetBits_eq]
  exact BitArray.get_set data i j

theorem espErr_ne_stop (code : Option ℕ) : espErr code ≠ .stop := by
  cases code <;> exact MdfErr.noConfusion

/-! ## The firmware in the partition -/

def PacketThere (c : SendCall) (flash : Flash) (i : ℕ) : Prop :=
  ∀ k < c.packetSizeAt i, flash (i * mupgradePacketMaxSize + k) =
    c.partition (i * mupgradePacketMaxSize + k)

def ImageThere (c : SendCall) (flash : Flash) : Prop := ∀ a < c.totalSize, flash a = c.partition a

def MupgradeConfig.bit (g : MupgradeConfig) (i : ℕ) : Bool := mupgradeGetBits g.progressArray i

/-- What a device gets: requests about this firmware, and packets of it, from this call or
another one that distributes it. -/
def OfFirmware (c : SendCall) (name : Bytes 32) : NodeMessage → Prop
  | .status _ status => status.name = name ∧ status.totalSize = c.totalSize
  | .data _ packet => ∃ c' : SendCall, c'.totalSize = c.totalSize ∧ c'.partition = c.partition ∧
      Sent c' packet.seq packet.size packet.data

/-- The write of packet `i` fails, if it comes to it. -/
def WriteFails (i : ℕ) : NodeMessage → Prop
  | .status _ _ => False
  | .data e packet => packet.seq = i ∧ e.partitionWrite.isSome = true

/-- A request that makes a device other than the root begin with a firmware. -/
structure Initialisation (c : SendCall) (name : Bytes 32) where
  before : UpgradeNode
  e : StatusEnv
  status : MupgradeStatus
  partition : ℕ
  sameName : status.name = name
  sameSize : status.totalSize = c.totalSize
  notStopped : status.errorCode ≠ .stop
  other : ¬ ((before.config e.loaded).status.name = status.name ∧
    (before.config e.loaded).status.totalSize = status.totalSize)
  notRoot : e.isRoot = false
  runs : e.running.isSome = true
  updates : e.update = some partition
  begins : e.otaBegin = none
  saves : e.infoSave = none
  blank : ∀ a < c.totalSize, e.erased a = erased

def Initialisation.node {c : SendCall} {name : Bytes 32} (b : Initialisation c name) :
    UpgradeNode := nodeStep b.before (.status b.e b.status)

/-! ## The invariant -/

structure Marking (c : SendCall) (name : Bytes 32) (p : ℕ) (n : UpgradeNode)
    (g : MupgradeConfig) : Prop where
  config : n.gUpgradeConfig = some g
  sameName : g.status.name = name
  sameSize : g.status.totalSize = c.totalSize
  notStopped : g.status.errorCode ≠ .stop
  partition : g.partition = some p
  accepts : Accepts (n.flash p) c.partition c.totalSize
  there : ∀ i < c.packetNum, g.bit i = true → PacketThere c (n.flash p) i
  written : g.status.writtenSize = Blocks.sizes mupgradePacketMaxSize c.totalSize g.bit

/-- No byte of packet `i` has been written yet, if its bit is not set. -/
def Untouched (c : SendCall) (p i : ℕ) (n : UpgradeNode) (g : MupgradeConfig) : Prop :=
  g.bit i = false →
    ∀ k < c.packetSizeAt i, n.flash p (i * mupgradePacketMaxSize + k) = erased

section Steps
variable {c : SendCall} {name : Bytes 32} {p : ℕ} {n n' : UpgradeNode} {g g' : MupgradeConfig}

/-- Nothing is written. -/
theorem Marking.same (h : Marking c name p n g) (hconfig : n'.gUpgradeConfig = some g')
    (hflash : n'.flash = n.flash) (hpartition : g'.partition = g.partition)
    (hprogress : g'.progressArray = g.progressArray) (hname : g'.status.name = g.status.name)
    (htotal : g'.status.totalSize = g.status.totalSize)
    (hwritten : g'.status.writtenSize = g.status.writtenSize)
    (hstop : g'.status.errorCode ≠ .stop) : Marking c name p n' g' := by
  have hbit : g'.bit = g.bit := by
    funext i
    rw [MupgradeConfig.bit, hprogress, MupgradeConfig.bit]
  exact ⟨hconfig, hname.trans h.sameName, htotal.trans h.sameSize, hstop,
    hpartition.trans h.partition, hflash ▸ h.accepts, hbit ▸ hflash ▸ h.there,
    hbit ▸ hwritten.trans h.written⟩

/-- A request for the firmware that the device already has. -/
theorem status_same (h : Marking c name p n g) (e : StatusEnv) {status : MupgradeStatus}
    (hname : status.name = name) (htotal : status.totalSize = c.totalSize) :
    mupgradeStatus e status n = statusExit e .ok g n [] := by
  have hconfig : n.config e.loaded = g := by
    simp [UpgradeNode.config, h.config]
  rw [mupgradeStatus, hconfig]
  exact if_pos ⟨h.sameName.trans hname.symm, h.sameSize.trans htotal.symm⟩

theorem statusExit_marking (h : Marking c name p n g) (e : StatusEnv) :
    ∃ g', Marking c name p (statusExit e .ok g n []).1 g' ∧ g'.progressArray = g.progressArray := by
  refine ⟨_, h.same rfl rfl rfl rfl rfl rfl rfl ?_, rfl⟩
  dsimp only
  rw [if_neg h.notStopped]
  exact MdfErr.noConfusion

theorem statusExit_no_boot (e : StatusEnv) (ret : MdfErr) (g : MupgradeConfig) (n : UpgradeNode)
    (q : Option ℕ) (r : MdfErr) : .setBootPartition q r ∉ (statusExit e ret g n []).2.1 := by
  unfold statusExit
  dsimp only
  split
  · simp
  · split <;> simp

/-! ## A packet -/

/-- The bits that a write leaves. -/
def WriteEnv.leaves (e : WriteEnv) : ℕ → UInt8 :=
  if e.partitionWrite.isSome then e.left else fun _ => 0

theorem partitionWrite_self (e : WriteEnv) (p offset size : ℕ) (data : ℕ → UInt8)
    (flash : ℕ → Flash) :
    partitionWrite e (some p) offset size data flash p =
      program (flash p) offset size data e.leaves :=
  Function.update_self ..

/-- The packet is written, as a whole or in part. -/
theorem Marking.programmed (h : Marking c name p n g)
    (hconfig : n'.gUpgradeConfig = n.gUpgradeConfig) {packet : MupgradePacket}
    (hpacket : c.PacketAt packet.seq packet.size packet.data) {e : WriteEnv}
    (hflash : n'.flash p = program (n.flash p) (packet.seq * mupgradePacketMaxSize) packet.size
      packet.data e.leaves) : Marking c name p n' g := by
  refine ⟨hconfig.trans h.config, h.sameName, h.sameSize, h.notStopped, h.partition, ?_,
    fun i hi hbit k hk => ?_, h.written⟩
  · rw [hflash]
    exact h.accepts.program hpacket.bytes
  · rw [hflash]
    exact program_stable hpacket.bytes (h.there i hi hbit k hk)

/-- Another packet's place is not written. -/
theorem Untouched.programmed {i : ℕ} (h : Untouched c p i n g) {packet : MupgradePacket}
    (hpacket : c.PacketAt packet.seq packet.size packet.data) (hi : packet.seq ≠ i)
    {e : WriteEnv} (hflash : n'.flash p = program (n.flash p)
      (packet.seq * mupgradePacketMaxSize) packet.size packet.data e.leaves)
    (hbit : g'.bit i = g.bit i) : Untouched c p i n' g' := by
  intro hclear k hk
  have hlen := packetSizeAt_le c packet.seq
  have hlen' := packetSizeAt_le c i
  have hsize := hpacket.length
  simp only [mupgradePacketMaxSize] at hlen hlen' hflash ⊢
  rw [hflash, program_outside (by omega)]
  exact h (hbit ▸ hclear) k hk

/-- What a packet leaves once it is in flash. -/
structure Counted (packet : MupgradePacket) (g g' : MupgradeConfig) : Prop where
  name : g'.status.name = g.status.name
  totalSize : g'.status.totalSize = g.status.totalSize
  writtenSize : g'.status.writtenSize = (g.status.writtenSize + packet.size) % 4294967296
  notStopped : g.status.errorCode ≠ .stop → g'.status.errorCode ≠ .stop
  partition : g'.partition = g.partition
  progressArray : g'.progressArray = mupgradeSetBits g.progressArray packet.seq

theorem Counted.bit {packet : MupgradePacket} (h : Counted packet g g') (i : ℕ) :
    g'.bit i = (g.bit i || decide (packet.seq = i)) := by
  rw [MupgradeConfig.bit, h.progressArray]
  exact mupgradeGetBits_set g.progressArray packet.seq i

theorem writeDone_reset (e : WriteEnv) (packet : MupgradePacket) (n : UpgradeNode)
    (calls : List NodeCall) (h : g.status.totalSize = 0) :
    writeDone e packet g n calls = (.boot n.info n.flash, calls, none) :=
  if_pos h

theorem writeDone_counted (e : WriteEnv) (packet : MupgradePacket) (n : UpgradeNode)
    (calls : List NodeCall) (hsize : g.status.totalSize ≠ 0) : ∃ g',
    (writeDone e packet g n calls).1.gUpgradeConfig = some g' ∧
      (writeDone e packet g n calls).1.flash = n.flash ∧ Counted packet g g' := by
  unfold writeDone
  dsimp only
  rw [if_neg hsize]
  split
  · unfold writeComplete
    dsimp only
    split
    · exact ⟨_, rfl, rfl, rfl, rfl, rfl, fun _ => espErr_ne_stop _, rfl, rfl⟩
    · exact ⟨_, rfl, rfl, rfl, rfl, rfl, fun _ => espErr_ne_stop _, rfl, rfl⟩
  · exact ⟨_, rfl, rfl, rfl, rfl, rfl, id, rfl, rfl⟩

theorem writeDone_boot {e : WriteEnv} {packet : MupgradePacket} {calls : List NodeCall}
    {q : Option ℕ} {r : MdfErr} (hcalls : .setBootPartition q r ∉ calls)
    (h : .setBootPartition q r ∈ (writeDone e packet g n calls).2.1) :
    (g.status.writtenSize + packet.size) % 4294967296 = g.status.totalSize := by
  unfold writeDone at h
  dsimp only at h
  split at h
  · exact absurd h hcalls
  split at h
  · assumption
  · rw [List.mem_append] at h
    rcases h with h | h
    · exact absurd h hcalls
    · split at h <;> simp at h

/-- The sizes still add up to `written_size` when one more packet is counted. -/
theorem Counted.written {packet : MupgradePacket} (h : Counted packet g g')
    (hmax : c.totalSize ≤ mupgradePacketMaxNum * mupgradePacketMaxSize)
    (hinside : packet.seq < c.packetNum) (hlength : packet.size = c.packetSizeAt packet.seq)
    (hclear : g.bit packet.seq = false)
    (hwritten : g.status.writtenSize = Blocks.sizes mupgradePacketMaxSize c.totalSize g.bit) :
    g'.status.writtenSize = Blocks.sizes mupgradePacketMaxSize c.totalSize g'.bit := by
  have hseq := hinside
  rw [packetNum_eq hmax] at hseq
  have hsize := hlength.trans (packetSizeAt_eq hmax hinside)
  have hsum := Blocks.sizes_insert hseq hclear h.bit
  have hle := Blocks.sizes_le (by decide : 0 < mupgradePacketMaxSize) c.totalSize g'.bit
  rw [h.writtenSize, hwritten, hsize, ← hsum]
  apply Nat.mod_eq_of_lt
  exact (hle.trans hmax).trans_lt (by decide)

/-- The bit of a packet that is in flash as a whole is set. -/
theorem Marking.counted (h : Marking c name p n g)
    (hmax : c.totalSize ≤ mupgradePacketMaxNum * mupgradePacketMaxSize) {packet : MupgradePacket}
    (hpacket : c.PacketAt packet.seq packet.size packet.data) (hclear : g.bit packet.seq = false)
    (hflash : n'.flash p = program (n.flash p) (packet.seq * mupgradePacketMaxSize) packet.size
      packet.data fun _ => 0) (hconfig : n'.gUpgradeConfig = some g')
    (hcounted : Counted packet g g') : Marking c name p n' g' := by
  have hseq := hpacket.inside
  rw [packetNum_eq hmax] at hseq
  have hsize : packet.size = Blocks.size mupgradePacketMaxSize c.totalSize packet.seq :=
    hpacket.length.trans (packetSizeAt_eq hmax hpacket.inside)
  have hend := Blocks.end_le (by decide : 0 < mupgradePacketMaxSize) hseq
  refine ⟨hconfig, hcounted.name.trans h.sameName, hcounted.totalSize.trans h.sameSize,
    hcounted.notStopped h.notStopped, hcounted.partition.trans h.partition, ?_,
    fun i hi hset k hk => ?_,
    hcounted.written hmax hpacket.inside hpacket.length hclear h.written⟩
  · rw [hflash]
    exact h.accepts.program hpacket.bytes
  · rw [hflash]
    rw [hcounted.bit, Bool.or_eq_true, decide_eq_true_eq] at hset
    rcases hset with hset | rfl
    · exact program_stable hpacket.bytes (h.there i hi hset k hk)
    · rw [← hpacket.length] at hk
      exact program_complete h.accepts hpacket.bytes (by omega) (by omega)

/-- What a message leaves: the invariant, the places of packets that have not been written, and
no change of the boot partition but with the last byte. -/
structure Stepped (c : SendCall) (name : Bytes 32) (p : ℕ) (n : UpgradeNode) (g : MupgradeConfig)
    (msg : NodeMessage) (g' : MupgradeConfig) : Prop where
  marking : Marking c name p (nodeStep n msg) g'
  untouched : ∀ i, ¬ WriteFails i msg → Untouched c p i n g → Untouched c p i (nodeStep n msg) g'
  boot : ∀ q r, .setBootPartition q r ∈ (mupgradeHandle n msg).2.1 →
    g'.status.writtenSize = c.totalSize

theorem status_stepped (h : Marking c name p n g) (e : StatusEnv) {status : MupgradeStatus}
    (hname : status.name = name) (htotal : status.totalSize = c.totalSize) :
    ∃ g', Stepped c name p n g (.status e status) g' := by
  have hsame := status_same h e hname htotal
  obtain ⟨g', hmarking, hprogress⟩ := statusExit_marking h e
  refine ⟨g', ?_, fun i _ huntouched hclear k hk => ?_, fun q r hboot => ?_⟩
  · rwa [nodeStep, mupgradeHandle, hsame]
  · rw [nodeStep, mupgradeHandle, hsame]
    rw [MupgradeConfig.bit, hprogress] at hclear
    exact huntouched hclear k hk
  · rw [mupgradeHandle, hsame] at hboot
    exact absurd hboot (statusExit_no_boot e .ok g n q r)

/-- The device with what the write has left in flash. -/
def UpgradeNode.flashed (n : UpgradeNode) (e : WriteEnv) (packet : MupgradePacket)
    (g : MupgradeConfig) : UpgradeNode :=
  { n with
    gUpgradeConfig := some g
    flash := partitionWrite e g.partition (packet.seq * mupgradePacketMaxSize) packet.size
      packet.data n.flash }

theorem flashed_flash (h : Marking c name p n g) (e : WriteEnv) (packet : MupgradePacket) :
    (n.flashed e packet g).flash p = program (n.flash p) (packet.seq * mupgradePacketMaxSize)
      packet.size packet.data e.leaves := by
  rw [UpgradeNode.flashed, h.partition]
  exact partitionWrite_self ..

/-- A packet of the firmware is a duplicate or is written. -/
theorem handle_packet (h : Marking c name p n g)
    (hmax : c.totalSize ≤ mupgradePacketMaxNum * mupgradePacketMaxSize) (e : WriteEnv)
    {packet : MupgradePacket} (hpacket : c.PacketAt packet.seq packet.size packet.data) :
    mupgradeHandle n (.data e packet) =
      let call := .partitionWrite g.partition (packet.seq * mupgradePacketMaxSize) packet.size
      if g.bit packet.seq then ({ n with gUpgradeConfig := some g }, [], some .ok)
      else if e.partitionWrite.isSome then (n.flashed e packet g, [call], some .firmwareDownload)
      else writeDone e packet g (n.flashed e packet g) [call] := by
  have hwrite : mupgradeHandle n (.data e packet) = writePacket e packet g n := by
    simp [mupgradeHandle, mupgradeWrite, h.config]
  have hinside : ¬ packet.seq * mupgradePacketMaxSize > g.status.totalSize := by
    have hseq := hpacket.inside
    rw [packetNum_eq hmax, Blocks.lt_num_iff (by decide)] at hseq
    rw [h.sameSize]
    omega
  rw [hwrite, writePacket, if_neg h.notStopped, if_neg hinside]
  rfl

theorem Marking.not_empty (h : Marking c name p n g)
    (hmax : c.totalSize ≤ mupgradePacketMaxNum * mupgradePacketMaxSize) {i : ℕ}
    (hi : i < c.packetNum) : g.status.totalSize ≠ 0 := by
  rw [packetNum_eq hmax, Blocks.lt_num_iff (by decide)] at hi
  rw [h.sameSize]
  exact Nat.ne_zero_of_lt hi

theorem data_stepped (h : Marking c name p n g)
    (hmax : c.totalSize ≤ mupgradePacketMaxNum * mupgradePacketMaxSize) (e : WriteEnv)
    {packet : MupgradePacket} (hpacket : c.PacketAt packet.seq packet.size packet.data) :
    ∃ g', Stepped c name p n g (.data e packet) g' := by
  have hhandle := handle_packet h hmax e hpacket
  have hflash := flashed_flash h e packet
  by_cases hbit : g.bit packet.seq = true
  · rw [if_pos hbit] at hhandle
    refine ⟨g, ?_, fun i _ huntouched => ?_, fun q r hboot => ?_⟩
    · rw [nodeStep, hhandle]
      exact h.same rfl rfl rfl rfl rfl rfl rfl h.notStopped
    · rw [nodeStep, hhandle]
      exact huntouched
    · rw [hhandle] at hboot
      cases hboot
  · rw [if_neg hbit] at hhandle
    by_cases hfails : e.partitionWrite.isSome = true
    · rw [if_pos hfails] at hhandle
      refine ⟨g, ?_, fun i hi huntouched => ?_, fun q r hboot => ?_⟩
      · rw [nodeStep, hhandle]
        exact h.programmed h.config.symm hpacket hflash
      · rw [nodeStep, hhandle]
        exact huntouched.programmed hpacket (fun heq => hi ⟨heq, hfails⟩) hflash rfl
      · rw [hhandle] at hboot
        simp at hboot
    · rw [if_neg hfails] at hhandle
      obtain ⟨g', hconfig, hsame, hcounted⟩ := writeDone_counted e packet (n.flashed e packet g)
        [.partitionWrite g.partition (packet.seq * mupgradePacketMaxSize) packet.size]
        (h.not_empty hmax hpacket.inside)
      have hleaves : e.leaves = fun _ => 0 := if_neg hfails
      have hstep : (nodeStep n (.data e packet)).flash p = program (n.flash p)
          (packet.seq * mupgradePacketMaxSize) packet.size packet.data e.leaves := by
        rw [nodeStep, hhandle, hsame, hflash]
      have hmarking : Marking c name p (nodeStep n (.data e packet)) g' := by
        refine h.counted hmax hpacket (by simpa using hbit) (hleaves ▸ hstep) ?_ hcounted
        rw [nodeStep, hhandle, hconfig]
      refine ⟨g', hmarking, fun i _ huntouched => ?_, fun q r hboot => ?_⟩
      · by_cases hi : packet.seq = i
        · intro hclear
          rw [hcounted.bit, decide_eq_true hi, Bool.or_true] at hclear
          cases hclear
        · refine huntouched.programmed hpacket hi hstep ?_
          rw [hcounted.bit, decide_eq_false hi, Bool.or_false]
      · rw [hhandle] at hboot
        have htotal := writeDone_boot (by simp) hboot
        rw [← hcounted.writtenSize, h.sameSize] at htotal
        exact htotal

theorem msg_stepped (h : Marking c name p n g)
    (hmax : c.totalSize ≤ mupgradePacketMaxNum * mupgradePacketMaxSize) {msg : NodeMessage}
    (hmsg : OfFirmware c name msg) : ∃ g', Stepped c name p n g msg g' := by
  cases msg with
  | status e status => exact status_stepped h e hmsg.1 hmsg.2
  | data e packet =>
    obtain ⟨c', htotal, hpartition, hsent⟩ := hmsg
    exact data_stepped h hmax e ((sent_packetAt hsent).congr htotal hpartition)

end Steps

/-! ## The start -/

theorem packet_end_le {c : SendCall}
    (hmax : c.totalSize ≤ mupgradePacketMaxNum * mupgradePacketMaxSize) {i : ℕ}
    (hi : i < c.packetNum) : i * mupgradePacketMaxSize + c.packetSizeAt i ≤ c.totalSize := by
  rw [packetSizeAt_eq hmax hi]
  rw [packetNum_eq hmax] at hi
  exact Blocks.end_le (by decide) hi

theorem statusBegin_ok {e : StatusEnv} (hbegin : e.otaBegin = none) (hsave : e.infoSave = none)
    (update : ℕ) (g : MupgradeConfig) (n : UpgradeNode) : ∃ n' calls,
    n'.flash update = e.erased ∧ statusBegin e update g n =
      statusExit e .ok { g with partition := some update, handle := e.handle } n' calls := by
  unfold statusBegin
  rw [hbegin, hsave]
  exact ⟨_, _, Function.update_self .., rfl⟩

section Start
variable {c : SendCall} {name : Bytes 32} (b : Initialisation c name)

/-- The configuration in front of `EXIT`. -/
def Initialisation.config : MupgradeConfig :=
  { MupgradeConfig.zero with
    handle := b.e.handle
    partition := some b.partition
    status := { b.status with writtenSize := 0 } }

theorem init_exit : ∃ n calls, n.flash b.partition = b.e.erased ∧
    mupgradeStatus b.e b.status b.before = statusExit b.e .ok b.config n calls := by
  obtain ⟨running, hrunning⟩ := Option.isSome_iff_exists.mp b.runs
  unfold mupgradeStatus
  dsimp only
  rw [if_neg b.other, b.notRoot, if_neg Bool.false_ne_true, hrunning, b.updates]
  exact statusBegin_ok b.begins b.saves b.partition _ _

theorem init_bit (i : ℕ) : b.config.bit i = false :=
  (mupgradeGetBits_eq _ i).trans (BitArray.get_clear i)

theorem init_marking (hmax : c.totalSize ≤ mupgradePacketMaxNum * mupgradePacketMaxSize) :
    ∃ g, Marking c name b.partition b.node g ∧
      ∀ i < c.packetNum, Untouched c b.partition i b.node g := by
  obtain ⟨n, calls, hflash, hexit⟩ := init_exit b
  rw [Initialisation.node, nodeStep, mupgradeHandle, hexit]
  refine ⟨_, ⟨rfl, b.sameName, b.sameSize, ?_, rfl, ?_, fun i _ hbit => ?_, ?_⟩,
    fun i hi _ k hk => ?_⟩
  · have hstop : b.config.status.errorCode ≠ .stop := b.notStopped
    dsimp only
    rw [if_neg hstop]
    exact MdfErr.noConfusion
  · apply Accepts.of_erased
    intro a ha
    exact (congrFun hflash a).trans (b.blank a ha)
  · exact absurd ((init_bit b i).symm.trans hbit) Bool.false_ne_true
  · exact (Blocks.sizes_none _ _ (init_bit b)).symm
  · have hend := packet_end_le hmax hi
    exact (congrFun hflash _).trans (b.blank _ (by omega))

end Start

/-! ## Reassembly -/

/-- Why packet `i` may be in the partition without its bit: it looks like erased flash, or a
write of it has failed. -/
def Excused (c : SendCall) (msgs : List NodeMessage) (i : ℕ) : Prop :=
  (∀ k < c.packetSizeAt i, c.partition (i * mupgradePacketMaxSize + k) = erased) ∨
    ∃ msg ∈ msgs, WriteFails i msg

structure Reassembled (c : SendCall) (p : ℕ) (msgs : List NodeMessage) (n : UpgradeNode)
    (g : MupgradeConfig) : Prop where
  config : n.gUpgradeConfig = some g
  there : ∀ i < c.packetNum, g.bit i = true → PacketThere c (n.flash p) i
  bits : ∀ i < c.packetNum, PacketThere c (n.flash p) i → g.bit i = true ∨ Excused c msgs i
  written : g.status.writtenSize =
    ∑ i ∈ Finset.range c.packetNum with g.bit i = true, c.packetSizeAt i
  image : g.status.writtenSize = c.totalSize → ImageThere c (n.flash p)
  complete : ImageThere c (n.flash p) → g.status.writtenSize = c.totalSize ∨
    ∃ i < c.packetNum, g.bit i = false ∧ Excused c msgs i

section Runs
variable {c : SendCall} {name : Bytes 32} {p : ℕ} {n : UpgradeNode} {g : MupgradeConfig}

theorem image_there_iff (hmax : c.totalSize ≤ mupgradePacketMaxNum * mupgradePacketMaxSize)
    (flash : Flash) : ImageThere c flash ↔ ∀ i < c.packetNum, PacketThere c flash i := by
  constructor
  · intro h i hi k hk
    have hend := packet_end_le hmax hi
    exact h _ (by omega)
  · intro h a ha
    obtain ⟨hblock, hle, hlt⟩ := Blocks.mem_block (by decide : 0 < mupgradePacketMaxSize) ha
    rw [← packetNum_eq hmax] at hblock
    rw [← packetSizeAt_eq hmax hblock] at hlt
    have hbyte := h _ hblock (a - a / mupgradePacketMaxSize * mupgradePacketMaxSize) (by omega)
    rwa [Nat.add_sub_cancel' hle] at hbyte

theorem Marking.complete_iff (h : Marking c name p n g)
    (hmax : c.totalSize ≤ mupgradePacketMaxNum * mupgradePacketMaxSize) :
    g.status.writtenSize = c.totalSize ↔ ∀ i < c.packetNum, g.bit i = true := by
  rw [h.written, Blocks.sizes_eq_iff (by decide), ← packetNum_eq hmax]

theorem Marking.image (h : Marking c name p n g)
    (hmax : c.totalSize ≤ mupgradePacketMaxNum * mupgradePacketMaxSize)
    (hwritten : g.status.writtenSize = c.totalSize) : ImageThere c (n.flash p) := by
  rw [image_there_iff hmax]
  intro i hi
  exact h.there i hi ((h.complete_iff hmax).mp hwritten i hi)

theorem sizes_eq_sum (hmax : c.totalSize ≤ mupgradePacketMaxNum * mupgradePacketMaxSize)
    (s : ℕ → Bool) : Blocks.sizes mupgradePacketMaxSize c.totalSize s =
      ∑ i ∈ Finset.range c.packetNum with s i = true, c.packetSizeAt i := by
  rw [Blocks.sizes, packetNum_eq hmax]
  refine Finset.sum_congr rfl fun i hi => ?_
  rw [Finset.mem_filter, Finset.mem_range, ← packetNum_eq hmax] at hi
  exact (packetSizeAt_eq hmax hi.1).symm

/-- The boot partition is changed only with the last byte of the image. -/
def BootsImage (c : SendCall) (p : ℕ) (n : UpgradeNode) (msg : NodeMessage) : Prop :=
  ∀ q r, .setBootPartition q r ∈ (mupgradeHandle n msg).2.1 →
    ImageThere c ((nodeStep n msg).flash p) ∧ ∃ g, (nodeStep n msg).gUpgradeConfig = some g ∧
      g.status.writtenSize = c.totalSize

theorem run_marking (hmax : c.totalSize ≤ mupgradePacketMaxNum * mupgradePacketMaxSize)
    (b : Initialisation c name) {msgs : List NodeMessage}
    (hmsgs : ∀ msg ∈ msgs, OfFirmware c name msg) :
    ∃ g, Marking c name b.partition (run nodeStep b.node msgs) g ∧
      ∀ i < c.packetNum, (∀ msg ∈ msgs, ¬ WriteFails i msg) →
        Untouched c b.partition i (run nodeStep b.node msgs) g := by
  have halong : Along nodeStep (fun _ msg => msg ∈ msgs) b.node msgs :=
    along_event.mpr fun _ h => h
  refine run_invariant_along (I := fun n => ∃ g, Marking c name b.partition n g ∧
    ∀ i < c.packetNum, (∀ msg ∈ msgs, ¬ WriteFails i msg) → Untouched c b.partition i n g)
    ?_ ?_ halong
  · rintro n msg ⟨g, hmarking, huntouched⟩ hmsg
    obtain ⟨g', hstepped⟩ := msg_stepped hmarking hmax (hmsgs msg hmsg)
    refine ⟨g', hstepped.marking, fun i hi hfails => ?_⟩
    exact hstepped.untouched i (hfails msg hmsg) (huntouched i hi hfails)
  · obtain ⟨g, hmarking, huntouched⟩ := init_marking b hmax
    exact ⟨g, hmarking, fun i hi _ => huntouched i hi⟩

theorem run_boots (hmax : c.totalSize ≤ mupgradePacketMaxNum * mupgradePacketMaxSize)
    (b : Initialisation c name) {msgs : List NodeMessage}
    (hmsgs : ∀ msg ∈ msgs, OfFirmware c name msg) :
    Along nodeStep (BootsImage c b.partition) b.node msgs := by
  have halong : Along nodeStep (fun _ msg => OfFirmware c name msg) b.node msgs :=
    along_event.mpr hmsgs
  refine along_of_invariant_along (I := fun n => ∃ g, Marking c name b.partition n g)
    ?_ ?_ ?_ halong
  · rintro n msg ⟨g, hmarking⟩ hmsg
    obtain ⟨g', hstepped⟩ := msg_stepped hmarking hmax hmsg
    exact ⟨g', hstepped.marking⟩
  · rintro n msg ⟨g, hmarking⟩ hmsg q r hboot
    obtain ⟨g', hstepped⟩ := msg_stepped hmarking hmax hmsg
    have hwritten := hstepped.boot q r hboot
    exact ⟨hstepped.marking.image hmax hwritten, g', hstepped.marking.config, hwritten⟩
  · obtain ⟨g, hmarking, -⟩ := init_marking b hmax
    exact ⟨g, hmarking⟩

/-- **Reassembly.** After any packets of the firmware and requests for it, whatever fails, a bit
means that its packet is in the partition, and a packet that is there has its bit unless it looks
like erased flash or a write of it has failed. The sizes of the packets with a bit are
`written_size`; when this is the size of the image, the image is there, and only then the boot
partition is changed. -/
theorem firmware_reassembled (c : SendCall) (name : Bytes 32)
    (hmax : c.totalSize ≤ mupgradePacketMaxNum * mupgradePacketMaxSize)
    (b : Initialisation c name) (msgs : List NodeMessage)
    (hmsgs : ∀ msg ∈ msgs, OfFirmware c name msg) :
    (∃ g, Reassembled c b.partition msgs (run nodeStep b.node msgs) g) ∧
      Along nodeStep (BootsImage c b.partition) b.node msgs := by
  refine ⟨?_, run_boots hmax b hmsgs⟩
  obtain ⟨g, hmarking, huntouched⟩ := run_marking hmax b hmsgs
  have hbits : ∀ i < c.packetNum, PacketThere c ((run nodeStep b.node msgs).flash b.partition) i →
      g.bit i = true ∨ Excused c msgs i := by
    intro i hi hthere
    by_contra hneither
    rw [not_or, Bool.not_eq_true, Excused, not_or] at hneither
    obtain ⟨hclear, hlooks, hfails⟩ := hneither
    refine hlooks fun k hk => ?_
    rw [← hthere k hk]
    exact huntouched i hi (fun msg hmsg hfail => hfails ⟨msg, hmsg, hfail⟩) hclear k hk
  refine ⟨g, hmarking.config, hmarking.there, hbits, ?_, hmarking.image hmax, fun himage => ?_⟩
  · rw [hmarking.written, sizes_eq_sum hmax]
  · rw [hmarking.complete_iff hmax]
    by_contra hneither
    rw [not_or] at hneither
    refine hneither.1 fun i hi => ?_
    by_contra hclear
    rw [Bool.not_eq_true] at hclear
    have hthere := (image_there_iff hmax _).mp himage i hi
    have hexcused := (hbits i hi hthere).resolve_left (by rw [hclear]; exact Bool.false_ne_true)
    exact hneither.2 ⟨i, hi, hclear, hexcused⟩

end Runs

/-! ## A firmware with an empty packet -/

/-- Two packets, the second one of the padding at the end of an image. -/
def paddedFirmware : SendCall where
  addrsList := [macOf 10]
  addrIsEmpty := false
  addrIsAny := false
  addrIsBroadcast := false
  routingTableSize := 2
  routingTable := []
  routingTableOk := true
  rootMac := macOf 2
  firmwareFinished := true
  totalSize := 2048
  partition := fun a => if a < 1024 then 0xe9 else 0xff
  mdfErrMupgradeBase := 0

def paddedName : Bytes 32 := Bytes.const 32 1

def paddedRequest : MupgradeStatus := ⟨2, paddedName, .firmwareFinish, 2048, 0⟩

def freshStatusEnv : StatusEnv where
  loaded := false
  isRoot := false
  running := some 0
  update := some 1
  setBoot := none
  otaBegin := none
  handle := 1
  erased := fun _ => erased
  infoSave := none
  mwifiWrite := none

/-- A device that has never been upgraded gets the request. -/
def freshBegin : Initialisation paddedFirmware paddedName where
  before := ⟨none, false, mupgradeStatusReportInterval, none, fun _ _ => 0⟩
  e := freshStatusEnv
  status := paddedRequest
  partition := 1
  sameName := rfl
  sameSize := rfl
  notStopped := MdfErr.noConfusion
  other := fun h => absurd h.2 (by decide)
  notRoot := rfl
  runs := rfl
  updates := rfl
  begins := rfl
  saves := rfl
  blank := fun _ _ => rfl

def sendOfPadded : Send :=
  (mupgradeFirmwareSend paddedFirmware (fun _ => 0) (fun _ => 0)).get rfl

/-- The device answers the request, and the first packet is read. -/
def firstPacketEvents : List SendEvent :=
  [.next, .receive none, .next, .receive (some ⟨macOf 10, 0, 2048, 0, fun _ => 0⟩), .next, .next,
    .flash true, .receive none]

def firstPacketBytes : List UInt8 :=
  (run (Send.step paddedFirmware) sendOfPadded firstPacketEvents).packetData.load 0
    mupgradePacketMaxSize

def firstPacket : MupgradePacket := ⟨0, 1024, fun k => firstPacketBytes.getD k 0⟩

theorem first_packet_sent :
    Sent paddedFirmware firstPacket.seq firstPacket.size firstPacket.data := by
  have hmem : .packet [macOf 10] 0 1024 firstPacketBytes ∈
      (run (Send.step paddedFirmware) sendOfPadded (firstPacketEvents ++ [.next])).writes :=
    List.mem_cons_self ..
  exact ⟨_, _, sendOfPadded, _, _, firstPacketBytes, rfl, hmem, rfl⟩

def allSucceed : WriteEnv where
  loaded := false
  partitionWrite := none
  left := fun _ => 0
  infoSave := none
  update := some 1
  setBoot := none
  mwifiWrite := none

def firstMessages : List NodeMessage :=
  [.data allSucceed firstPacket, .status freshStatusEnv paddedRequest,
    .data { allSucceed with partitionWrite := some 1 } firstPacket]

theorem first_messages_of_firmware :
    ∀ msg ∈ firstMessages, OfFirmware paddedFirmware paddedName msg := by
  intro msg hmsg
  simp only [firstMessages, List.mem_cons, List.not_mem_nil, or_false] at hmsg
  rcases hmsg with rfl | rfl | rfl
  · exact ⟨paddedFirmware, rfl, rfl, first_packet_sent⟩
  · exact ⟨rfl, rfl⟩
  · exact ⟨paddedFirmware, rfl, rfl, first_packet_sent⟩

theorem firmware_reassembled_first :
    (∃ g, Reassembled paddedFirmware 1 firstMessages (run nodeStep freshBegin.node firstMessages)
      g) ∧ Along nodeStep (BootsImage paddedFirmware 1) freshBegin.node firstMessages :=
  firmware_reassembled paddedFirmware paddedName (by decide) freshBegin firstMessages
    first_messages_of_firmware

/-- Before any packet has come, the second one is in the partition and its bit is clear. -/
theorem padding_there_unmarked :
    ¬ ∀ (c : SendCall) (name : Bytes 32) (b : Initialisation c name) (msgs : List NodeMessage),
      c.totalSize ≤ mupgradePacketMaxNum * mupgradePacketMaxSize →
      (∀ msg ∈ msgs, OfFirmware c name msg) →
      ∀ g, (run nodeStep b.node msgs).gUpgradeConfig = some g → ∀ i < c.packetNum,
        (g.bit i = true ↔ PacketThere c ((run nodeStep b.node msgs).flash b.partition) i) := by
  intro h
  have hone := h paddedFirmware paddedName freshBegin [] (by decide) (fun _ h => by cases h) _ rfl
    1 (by decide)
  have hthere : PacketThere paddedFirmware (freshBegin.node.flash freshBegin.partition) 1 := by
    intro k _
    have hpadding : ¬ 1 * mupgradePacketMaxSize + k < 1024 := by
      simp only [mupgradePacketMaxSize]
      omega
    exact (if_neg hpadding).symm
  exact absurd (hone.mpr hthere) (by decide)

/-- A write that fails with all bits cleared has the same effect on a packet with bytes other than
`0xff`. -/
theorem failed_packet_unmarked :
    let node := nodeStep freshBegin.node
      (.data { allSucceed with partitionWrite := some 1 } firstPacket)
    PacketThere paddedFirmware (node.flash 1) 0 ∧
      node.gUpgradeConfig.map (fun g => g.bit 0) = some false := by
  have hpacket := sent_packetAt first_packet_sent
  refine ⟨fun k hk => ?_, by decide⟩
  have hblank : Accepts (fun _ => erased) paddedFirmware.partition paddedFirmware.totalSize :=
    .of_erased fun _ _ => rfl
  have hlt : k < 1024 := hk
  have hplace : 0 * mupgradePacketMaxSize + k < paddedFirmware.totalSize := by
    simp only [mupgradePacketMaxSize, paddedFirmware]
    omega
  exact program_complete hblank hpacket.bytes ⟨Nat.le_add_right _ _, Nat.add_lt_add_left hlt _⟩
    hplace

end EspMesh
