import EspMesh.Proof.NodeMessage

/-! # What a packet with any numbers in it can reach

`seq`, `size` and `total_size` are taken from the messages. The one check compares the start of a
packet with the size of the firmware and lets equality pass; it says nothing of the end of the
packet, or of the length of the progress array.
-/

namespace EspMesh
set_option autoImplicit false
set_option maxRecDepth 20000
open ByteMem NorFlash StepRuns

/-! ## What is reached -/

def wholeArray : List ℕ := List.range (mupgradePacketMaxNum / 8)

/-- The bytes of the progress array that a message accesses. It is cleared, filled and sent as a
whole; the bit of a packet is tested, and set once the packet is written. -/
def progressAccesses (n : UpgradeNode) : NodeMessage → List ℕ
  | .status _ _ => wholeArray
  | .data e packet =>
    match n.record e.loaded with
    | none => []
    | some g =>
      if g.status.errorCode = .stop then wholeArray
      else if packet.seq * mupgradePacketMaxSize > g.status.totalSize then []
      else if mupgradeGetBits g.progressArray packet.seq || e.partitionWrite.isSome then
        [packet.seq >>> 3]
      else [packet.seq >>> 3, packet.seq >>> 3]

def eventAccesses (n : UpgradeNode) : NodeEvent → List ℕ
  | .msg msg => progressAccesses n msg
  | .reset => []
  | .cut e packet => progressAccesses n (.data e packet)

/-- Nothing more is counted than there is, in the record in use and in the one that is saved. -/
def RecordsWithin (n : UpgradeNode) : Prop :=
  ∀ g, n.gUpgradeConfig = some g ∨ n.info = some g → g.status.writtenSize ≤ g.status.totalSize

structure InBounds (n : UpgradeNode) (e : NodeEvent) : Prop where
  accesses : ∀ i ∈ eventAccesses n e, i < mupgradePacketMaxNum / 8
  writes : ∀ p offset size, .partitionWrite p offset size ∈ eventCalls n e →
    ∀ k < size, offset + k < (firmwareInProgress n e).2
  written : RecordsWithin (nodeEvent n e)

/-! ## What a packet has to meet -/

namespace MupgradeConfig
variable (g : MupgradeConfig) (packet : MupgradePacket)

/-- The packet is not turned away at once. -/
def Admits : Prop :=
  g.status.errorCode ≠ .stop ∧ packet.seq * mupgradePacketMaxSize ≤ g.status.totalSize

/-- The packet ends within the firmware. -/
def Holds : Prop :=
  packet.size = 0 ∨ packet.seq * mupgradePacketMaxSize + packet.size ≤ g.status.totalSize

/-- With the packet no more than the firmware is counted, in the 32 bits of `written_size`. -/
def Adds : Prop := (g.status.writtenSize + packet.size) % 4294967296 ≤ g.status.totalSize

/-- The packet has its bit in the array; if this is clear it ends within the firmware, and with
it, if it `counts`, no more than the firmware is counted. -/
def Takes (counts : Prop) : Prop :=
  packet.seq < mupgradePacketMaxNum ∧
    (g.bit packet.seq = false → g.Holds packet ∧ (counts → g.Adds packet))

end MupgradeConfig

def PacketsFit (n : UpgradeNode) : NodeEvent → Prop
  | .msg (.status _ _) | .reset => True
  | .msg (.data e packet) => ∀ g, n.record e.loaded = some g → g.Admits packet →
    g.Takes packet (e.partitionWrite = none)
  | .cut e packet => ∀ g, n.record e.loaded = some g → g.Admits packet →
    g.Takes packet (SavesWith e packet g n)

section Steps
variable {n : UpgradeNode} {e : WriteEnv} {packet : MupgradePacket} {g : MupgradeConfig}

theorem refuses_iff : g.refuses packet ↔ ¬ g.Admits packet ∨ g.bit packet.seq = true := by
  unfold MupgradeConfig.refuses MupgradeConfig.Admits MupgradeConfig.bit
  rw [not_and_or, not_not, not_le, or_assoc]

theorem goes_iff : ¬ g.refuses packet ↔ g.Admits packet ∧ g.bit packet.seq = false := by
  rw [refuses_iff, not_or, not_not, Bool.not_eq_true]

/-! ## The array -/

theorem wholeArray_inside : ∀ i ∈ wholeArray, i < mupgradePacketMaxNum / 8 :=
  fun _ h => List.mem_range.mp h

theorem bit_place (seq : ℕ) :
    seq >>> 3 < mupgradePacketMaxNum / 8 ↔ seq < mupgradePacketMaxNum := by
  rw [(bits_place seq).1, mupgradePacketMaxNum]
  omega

theorem accesses_iff (hrecord : n.record e.loaded = some g) :
    (∀ i ∈ progressAccesses n (.data e packet), i < mupgradePacketMaxNum / 8) ↔
      (g.Admits packet → packet.seq < mupgradePacketMaxNum) := by
  rw [progressAccesses, hrecord]
  dsimp only
  by_cases hstop : g.status.errorCode = .stop
  · rw [if_pos hstop]
    exact iff_of_true wholeArray_inside fun h => absurd hstop h.1
  rw [if_neg hstop]
  by_cases hbehind : packet.seq * mupgradePacketMaxSize > g.status.totalSize
  · rw [if_pos hbehind]
    exact iff_of_true (fun _ h => (by cases h)) fun h => absurd hbehind (not_lt.mpr h.2)
  · have hadmits : g.Admits packet := ⟨hstop, not_lt.mp hbehind⟩
    rw [if_neg hbehind, ← bit_place]
    split <;> simp [hadmits]

/-! ## Writes -/

theorem writes_iff (hrecord : n.record e.loaded = some g) {calls : List NodeCall}
    (hcalls : ∀ call : NodeCall, call.isPartitionWrite = true →
      (call ∈ calls ↔ ∃ g, n.WritesTo e packet g ∧ call = g.writeCall packet)) :
    (∀ p offset size, .partitionWrite p offset size ∈ calls →
        ∀ k < size, offset + k < g.status.totalSize) ↔
      (g.Admits packet → g.bit packet.seq = false → g.Holds packet) := by
  constructor
  · intro h hadmits hbit
    have hwrite : g.writeCall packet ∈ calls :=
      (hcalls _ rfl).mpr ⟨g, ⟨hrecord, goes_iff.mpr ⟨hadmits, hbit⟩⟩, rfl⟩
    rw [MupgradeConfig.Holds, or_iff_not_imp_left]
    intro hsize
    have hlast := h _ _ _ hwrite (packet.size - 1) (by omega)
    omega
  · intro h p offset size hmem k hk
    obtain ⟨g', ⟨hrecord', hgoes⟩, hcall⟩ := (hcalls _ rfl).mp hmem
    obtain rfl : g' = g := Option.some.inj (hrecord'.symm.trans hrecord)
    obtain ⟨-, rfl, rfl⟩ := NodeCall.partitionWrite.inj hcall
    obtain ⟨hadmits, hbit⟩ := goes_iff.mp hgoes
    have hholds := h hadmits hbit
    unfold MupgradeConfig.Holds at hholds
    omega

/-! ## What is counted -/

theorem record_within (h : RecordsWithin n) {loaded : Bool} (hrecord : n.record loaded = some g) :
    g.status.writtenSize ≤ g.status.totalSize := by
  obtain ⟨config, _, _, info, _⟩ := n
  cases config with
  | some g' => exact h g (.inl hrecord)
  | none =>
    cases info <;> cases loaded <;> cases hrecord
    exact h g (.inr rfl)

theorem config_within (h : RecordsWithin n) (loaded : Bool) :
    (n.config loaded).status.writtenSize ≤ (n.config loaded).status.totalSize := by
  cases hrecord : n.record loaded with
  | some g =>
    rw [config_of_record hrecord]
    exact record_within h hrecord
  | none =>
    obtain ⟨config, _, _, info, _⟩ := n
    cases config with
    | some g => cases hrecord
    | none => cases info <;> cases loaded <;> first | exact le_rfl | cases hrecord

theorem within_of {n' : UpgradeNode} (hconfig : n'.gUpgradeConfig = some g)
    (hwithin : g.status.writtenSize ≤ g.status.totalSize)
    (hinfo : ∀ g', n'.info = some g' → g'.status.writtenSize ≤ g'.status.totalSize) :
    RecordsWithin n' := by
  rintro g' (hg | hg)
  · rw [← Option.some.inj (hconfig.symm.trans hg)]
    exact hwithin
  · exact hinfo g' hg

theorem reported_info (h : RecordsWithin n) {g : MupgradeConfig}
    (hwithin : g.status.writtenSize ≤ g.status.totalSize) {n' : UpgradeNode}
    (hn' : n'.info = n.info) : ∀ g', (n'.reported e g).info = some g' →
      g'.status.writtenSize ≤ g'.status.totalSize := by
  intro g' hg'
  simp only [UpgradeNode.reported] at hg'
  split at hg'
  · rw [← Option.some.inj hg']
    exact hwithin
  · exact h g' (.inr (hn' ▸ hg'))

theorem data_within_iff (h : RecordsWithin n) (hrecord : n.record e.loaded = some g) :
    RecordsWithin (nodeStep n (.data e packet)) ↔
      (g.Admits packet → g.bit packet.seq = false →
        e.partitionWrite = none ∧ g.status.totalSize ≠ 0 → g.Adds packet) := by
  have hg := record_within h hrecord
  have hcounts : ¬ g.refuses packet → e.partitionWrite = none → g.status.totalSize ≠ 0 →
      ((g.Admits packet → g.bit packet.seq = false →
        e.partitionWrite = none ∧ g.status.totalSize ≠ 0 → g.Adds packet) ↔ g.Adds packet) := by
    intro hgoes hwrite hsize
    obtain ⟨hadmits, hbit⟩ := goes_iff.mp hgoes
    exact ⟨fun h => h hadmits hbit ⟨hwrite, hsize⟩, fun h _ _ _ => h⟩
  rw [nodeStep, mupgradeHandle]
  refine mupgradeWrite_cases e packet n fun result hcases => ?_
  cases hcases with
  | notInit hrecord' => cases hrecord'.symm.trans hrecord
  | stopped g' hrecord' hstop =>
    obtain rfl := Option.mem_unique hrecord' hrecord
    refine iff_of_true (within_of rfl (Nat.zero_le _) fun _ hinfo => (by cases hinfo)) ?_
    exact fun hadmits => absurd hstop hadmits.1
  | refused g' hrecord' hrefuses hstop ret =>
    obtain rfl := Option.mem_unique hrecord' hrecord
    refine iff_of_true (within_of rfl hg fun g' hg' => h g' (.inr hg')) ?_
    intro hadmits hbit
    exact absurd hrefuses (goes_iff.mpr ⟨hadmits, hbit⟩)
  | fails g' hrecord' hgoes hwrite =>
    obtain rfl := Option.mem_unique hrecord' hrecord
    refine iff_of_true (within_of rfl hg fun g' hg' => h g' (.inr hg')) ?_
    rintro _ _ ⟨hok, -⟩
    rw [hok] at hwrite
    cases hwrite
  | divides g' hrecord' hgoes hwrite hsize =>
    obtain rfl := Option.mem_unique hrecord' hrecord
    refine iff_of_true ?_ fun _ _ hcounted => absurd hsize hcounted.2
    rintro g (hg' | hg')
    · cases hg'
    · exact h g (.inr hg')
  | counted g' hrecord' hgoes hwrite hopen hsize =>
    obtain rfl := Option.mem_unique hrecord' hrecord
    rw [hcounts hgoes hwrite hsize]
    have hadds : (g'.counting packet).status.writtenSize ≤
        (g'.counting packet).status.totalSize ↔ g'.Adds packet := Iff.rfl
    rw [← hadds]
    exact ⟨fun hwithin => hwithin _ (.inl rfl),
      fun hcount => within_of rfl hcount (reported_info h hcount rfl)⟩
  | bootFails g' hrecord' hgoes hwrite hdone hboot hsize =>
    obtain rfl := Option.mem_unique hrecord' hrecord
    rw [hcounts hgoes hwrite hsize]
    exact ⟨fun hwithin => hwithin _ (.inl rfl),
      fun hadds => within_of rfl hadds fun _ hinfo => (by cases hinfo)⟩
  | completes g' hrecord' hgoes hwrite hdone hboot hsize =>
    obtain rfl := Option.mem_unique hrecord' hrecord
    rw [hcounts hgoes hwrite hsize]
    exact ⟨fun hwithin => hwithin _ (.inl rfl),
      fun hadds => within_of rfl hadds fun _ hinfo => (by cases hinfo)⟩

theorem cut_within_iff (h : RecordsWithin n) (hrecord : n.record e.loaded = some g) :
    RecordsWithin (n.cut e packet) ↔
      (g.Admits packet → g.bit packet.seq = false → SavesWith e packet g n →
        g.Adds packet) := by
  rw [UpgradeNode.cut, hrecord]
  dsimp only
  by_cases hsave : SavesWith e packet g n
  · obtain ⟨hadmits, hbit⟩ := goes_iff.mp hsave.1
    rw [if_pos hsave]
    constructor
    · exact fun hwithin _ _ _ => hwithin _ (.inr rfl)
    · rintro hadds g' (hg' | hg')
      · cases hg'
      · rw [← Option.some.inj hg']
        exact hadds hadmits hbit hsave
  · rw [if_neg hsave]
    refine iff_of_true ?_ fun _ _ hsaves => absurd hsaves hsave
    rintro g' (hg' | hg')
    · cases hg'
    · exact h g' (.inr hg')

/-! ## One event -/

/-- The three bounds together are what the packet has to meet. -/
theorem takes_iff {counts : Prop} :
    ((g.Admits packet → packet.seq < mupgradePacketMaxNum) ∧
      (g.Admits packet → g.bit packet.seq = false → g.Holds packet) ∧
      (g.Admits packet → g.bit packet.seq = false → counts → g.Adds packet)) ↔
      (g.Admits packet → g.Takes packet counts) := by
  constructor
  · rintro ⟨hplace, hholds, hadds⟩ hadmits
    exact ⟨hplace hadmits, fun hbit => ⟨hholds hadmits hbit, hadds hadmits hbit⟩⟩
  · intro h
    exact ⟨fun hadmits => (h hadmits).1, fun hadmits hbit => ((h hadmits).2 hbit).1,
      fun hadmits hbit => ((h hadmits).2 hbit).2⟩

/-- A packet that ends within an empty firmware is empty, so the reset behind it hides nothing. -/
theorem takes_empty {counts : Prop} (h : g.status.writtenSize ≤ g.status.totalSize) :
    g.Takes packet (counts ∧ g.status.totalSize ≠ 0) ↔ g.Takes packet counts := by
  refine and_congr_right fun _ => imp_congr_right fun _ => and_congr_right fun hholds => ?_
  by_cases hsize : g.status.totalSize = 0
  · have hadds : g.Adds packet := by
      unfold MupgradeConfig.Holds at hholds
      have hnone : g.status.writtenSize + packet.size = 0 := by omega
      rw [MupgradeConfig.Adds, hnone]
      exact Nat.zero_le _
    exact iff_of_true (fun _ => hadds) fun _ => hadds
  · exact imp_congr_left (and_iff_left hsize)

/-- A packet that finds no record reaches nothing. -/
theorem notInit_inBounds (h : RecordsWithin n) (hrecord : n.record e.loaded = none) :
    InBounds n (.msg (.data e packet)) ∧ InBounds n (.cut e packet) := by
  have haccesses : progressAccesses n (.data e packet) = [] := by
    rw [progressAccesses, hrecord]
  have hwrite := mupgradeWrite_none hrecord packet
  refine ⟨⟨?_, ?_, ?_⟩, ⟨?_, ?_, ?_⟩⟩
  · rw [eventAccesses, haccesses]
    exact fun _ hi => (by cases hi)
  · rw [eventCalls, mupgradeHandle, hwrite]
    exact fun _ _ _ hcall => (by cases hcall)
  · rw [nodeEvent, nodeStep, mupgradeHandle, hwrite]
    exact h
  · rw [eventAccesses, haccesses]
    exact fun _ hi => (by cases hi)
  · rw [eventCalls, hwrite]
    exact fun _ _ _ hcall => (by cases hcall)
  · rw [nodeEvent, UpgradeNode.cut, hrecord]
    rintro g (hg | hg)
    · cases hg
    · exact h g (.inr hg)

theorem inBounds_iff (n : UpgradeNode) (e : NodeEvent) : InBounds n e ↔
    (∀ i ∈ eventAccesses n e, i < mupgradePacketMaxNum / 8) ∧
    (∀ p offset size, .partitionWrite p offset size ∈ eventCalls n e →
      ∀ k < size, offset + k < (firmwareInProgress n e).2) ∧ RecordsWithin (nodeEvent n e) :=
  ⟨fun h => ⟨h.accesses, h.writes, h.written⟩, fun h => ⟨h.1, h.2.1, h.2.2⟩⟩

theorem data_inBounds_iff (h : RecordsWithin n) (e : WriteEnv) (packet : MupgradePacket) :
    InBounds n (.msg (.data e packet)) ↔ PacketsFit n (.msg (.data e packet)) := by
  cases hrecord : n.record e.loaded with
  | none =>
    refine iff_of_true (notInit_inBounds h hrecord).1 fun g hrecord' => ?_
    cases hrecord.symm.trans hrecord'
  | some g =>
    have htotal : (firmwareInProgress n (.msg (.data e packet))).2 = g.status.totalSize :=
      congrArg (·.status.totalSize) (config_of_record hrecord)
    have hfit : PacketsFit n (.msg (.data e packet)) ↔
        (g.Admits packet → g.Takes packet (e.partitionWrite = none)) := by
      refine ⟨fun h => h g hrecord, fun h g' hrecord' => ?_⟩
      rwa [← Option.some.inj (hrecord.symm.trans hrecord')]
    rw [inBounds_iff, htotal, hfit, eventAccesses, accesses_iff hrecord, eventCalls,
      mupgradeHandle, writes_iff hrecord fun _ hcall => write_mem_iff hcall, nodeEvent,
      data_within_iff h hrecord, ← takes_empty (record_within h hrecord)]
    exact takes_iff

theorem cut_inBounds_iff (h : RecordsWithin n) (e : WriteEnv) (packet : MupgradePacket) :
    InBounds n (.cut e packet) ↔ PacketsFit n (.cut e packet) := by
  cases hrecord : n.record e.loaded with
  | none =>
    refine iff_of_true (notInit_inBounds h hrecord).2 fun g hrecord' => ?_
    cases hrecord.symm.trans hrecord'
  | some g =>
    have htotal : (firmwareInProgress n (.cut e packet)).2 = g.status.totalSize :=
      congrArg (·.status.totalSize) (config_of_record hrecord)
    have hfit : PacketsFit n (.cut e packet) ↔
        (g.Admits packet → g.Takes packet (SavesWith e packet g n)) := by
      refine ⟨fun h => h g hrecord, fun h g' hrecord' => ?_⟩
      rwa [← Option.some.inj (hrecord.symm.trans hrecord')]
    rw [inBounds_iff, htotal, hfit, eventAccesses, accesses_iff hrecord, eventCalls,
      writes_iff hrecord fun _ hcall => cut_mem_iff hcall, nodeEvent, cut_within_iff h hrecord]
    exact takes_iff

/-! ## Requests -/

theorem exit_within {n : UpgradeNode} (e : StatusEnv) (ret : MdfErr) {g : MupgradeConfig}
    (calls : List NodeCall) (hg : g.status.writtenSize ≤ g.status.totalSize)
    (hinfo : ∀ g', n.info = some g' → g'.status.writtenSize ≤ g'.status.totalSize) :
    RecordsWithin (statusExit e ret g n calls).1 :=
  within_of rfl hg hinfo

theorem status_within (h : RecordsWithin n) (e : StatusEnv) (status : MupgradeStatus) :
    RecordsWithin (nodeStep n (.status e status)) := by
  have hinfo : ∀ g', n.info = some g' → g'.status.writtenSize ≤ g'.status.totalSize :=
    fun g' hg' => h g' (.inr hg')
  rw [nodeStep, handle_status_node]
  refine mupgradeStatus_cases e status n fun result hcases => ?_
  cases hcases with
  | same => exact exit_within e _ _ (config_within h e.loaded) hinfo
  | root =>
    unfold statusRoot
    dsimp only
    split
    · exact exit_within e _ _ (Nat.zero_le _) hinfo
    · exact exit_within e _ _ le_rfl hinfo
  | noPartition => exact exit_within e _ _ (Nat.zero_le _) hinfo
  | begins p =>
    unfold statusBegin
    dsimp only
    split
    · exact exit_within e _ _ (Nat.zero_le _) hinfo
    · split
      · exact exit_within e _ _ (Nat.zero_le _) hinfo
      · refine exit_within e _ _ (Nat.zero_le _) fun g' hg' => ?_
        rw [← Option.some.inj hg']
        exact Nat.zero_le _

end Steps

theorem event_inBounds_iff (n : UpgradeNode) (e : NodeEvent) (h : RecordsWithin n) :
    InBounds n e ↔ PacketsFit n e := by
  cases e with
  | msg msg =>
    cases msg with
    | status e status =>
      refine iff_of_true ⟨wholeArray_inside, fun p offset size hcall => ?_, ?_⟩ trivial
      · cases status_no_write e status n _ hcall
      · exact status_within h e status
    | data e packet => exact data_inBounds_iff h e packet
  | reset =>
    refine iff_of_true ⟨fun _ hi => (by cases hi), fun _ _ _ hcall => (by cases hcall), ?_⟩ trivial
    rintro g (hg | hg)
    · cases hg
    · exact h g (.inr hg)
  | cut e packet => exact cut_inBounds_iff h e packet

/-- **Bounds.** Whatever the fields of the messages are, every access to the progress array is
inside of it, every packet is written inside of the firmware, and no more than the firmware is
counted, exactly when each packet that is not turned away at once has its bit in the array, and, if
the bit is clear, ends within the firmware and does not make the sizes exceed it. -/
theorem malformed_messages_in_bounds (flash : ℕ → Flash) (es : List NodeEvent) :
    Along nodeEvent InBounds (.boot none flash) es ↔
      Along nodeEvent PacketsFit (.boot none flash) es := by
  have hboot : RecordsWithin (.boot none flash) := by
    rintro g (hg | hg) <;> cases hg
  exact along_iff_along (fun n e h hfit => ((event_inBounds_iff n e h).mpr hfit).written)
    event_inBounds_iff hboot

/-- A packet right behind the firmware is written there. -/
theorem packet_behind_firmware_written :
    ¬ Along nodeEvent InBounds (.boot none fun _ => fun _ => 0)
      [.msg (.status freshStatusEnv { paddedRequest with errorCode := .ok }),
        .msg (.data allSucceed ⟨2, 1024, fun _ => 0⟩)] := by
  rintro ⟨-, hdata, -⟩
  have hbehind := hdata.writes (some 1) 2048 1024 (List.mem_cons_self ..) 0 (by decide)
  exact absurd hbehind (by decide)

end EspMesh
