import EspMesh.Model.UpgradeNet
import EspMesh.Proof.SavedRecord

/-! # What a device reports

A status message is a copy of the record the device has just then. A packet of the firmware that
is in its partition stays there, so what a report has said of it is true for good, also of a
device that calls `mupgrade_stop` later.
-/

namespace EspMesh
set_option autoImplicit false
set_option maxRecDepth 20000
open ByteMem NorFlash StepRuns

/-! ## Reports and records -/

/-- A device reports the record it is left with, with the progress array if a part is written. -/
def ReportsOwn {ret : Type} (r : UpgradeNode × List NodeCall × ret) : Prop :=
  ∀ status withProgress, .mwifiWrite status withProgress ∈ r.2.1 →
    ∃ g, r.1.gUpgradeConfig = some g ∧ g.status = status ∧
      (status.writtenSize ≠ 0 → status.writtenSize ≠ status.totalSize → withProgress = true)

/-- Calls without a report. -/
def Silent (calls : List NodeCall) : Prop := ∀ status b, .mwifiWrite status b ∉ calls

theorem reportsOwn_of_silent {ret : Type} {r : UpgradeNode × List NodeCall × ret}
    (h : Silent r.2.1) : ReportsOwn r := fun status b hmem => absurd hmem (h status b)

section Reports
variable {n : UpgradeNode} {g : MupgradeConfig} {calls : List NodeCall}

theorem statusExit_reports (e : StatusEnv) (ret : MdfErr) (hcalls : Silent calls) :
    ReportsOwn (statusExit e ret g n calls) := by
  intro status b hmem
  have hreport : .mwifiWrite status b ∈ [NodeCall.mwifiWrite
      { g.status with
        type := mupgradeTypeData
        errorCode := if g.status.errorCode = .stop then .stop else ret }
      (g.status.writtenSize != 0 && g.status.writtenSize != g.status.totalSize)] := by
    unfold statusExit at hmem
    dsimp only at hmem
    rw [List.mem_append, List.mem_append] at hmem
    rcases hmem with (hmem | hmem) | hmem
    · exact absurd hmem (hcalls status b)
    · split at hmem
      · cases hmem
      · split at hmem <;> simp at hmem
    · exact hmem
  rw [List.mem_singleton] at hreport
  cases hreport
  refine ⟨_, rfl, rfl, fun hpart hopen => ?_⟩
  rw [Bool.and_eq_true, bne_iff_ne, bne_iff_ne]
  exact ⟨hpart, hopen⟩

theorem mupgradeStatus_reports (e : StatusEnv) (status : MupgradeStatus) (n : UpgradeNode) :
    ReportsOwn (mupgradeStatus e status n) := by
  unfold mupgradeStatus statusRoot statusBegin
  dsimp only
  repeat' split
  all_goals exact statusExit_reports e _ fun _ _ => by simp

theorem writeDone_reports (e : WriteEnv) (packet : MupgradePacket) (hcalls : Silent calls) :
    ReportsOwn (writeDone e packet g n calls) := by
  intro status b hmem
  unfold writeDone at hmem ⊢
  dsimp only at hmem ⊢
  split at hmem
  · exact absurd hmem (hcalls status b)
  rename_i hsize
  rw [if_neg hsize]
  split at hmem
  · rename_i hall
    rw [if_pos hall]
    unfold writeComplete at hmem ⊢
    dsimp only at hmem ⊢
    split at hmem
    · rename_i hboot
      have hnone := hcalls status b
      split at hmem <;> simp [hnone] at hmem
    · rename_i hboot
      rw [if_neg hboot]
      have hreport : .mwifiWrite status b = NodeCall.mwifiWrite
          { g.status with
            writtenSize := (g.status.writtenSize + packet.size) % 4294967296
            errorCode := espErr e.setBoot } false := by
        have hnone := hcalls status b
        split at hmem <;> simpa [hnone] using hmem
      cases hreport
      exact ⟨_, rfl, rfl, fun _ hopen => absurd hall hopen⟩
  · have hnone := hcalls status b
    split at hmem <;> simp [hnone] at hmem

theorem writePacket_reports (e : WriteEnv) (packet : MupgradePacket) (g : MupgradeConfig)
    (n : UpgradeNode) : ReportsOwn (writePacket e packet g n) := by
  unfold writePacket
  dsimp only
  split
  · intro status b hmem
    have hreport : .mwifiWrite status b = NodeCall.mwifiWrite
        { g.status with type := mupgradeTypeData, writtenSize := 0 } false := by
      simpa using hmem
    cases hreport
    exact ⟨_, rfl, rfl, fun hpart => absurd rfl hpart⟩
  · split
    · exact reportsOwn_of_silent fun _ _ => by simp
    · split
      · exact reportsOwn_of_silent fun _ _ => by simp
      · split
        · exact reportsOwn_of_silent fun _ _ => by simp
        · exact writeDone_reports e packet fun _ _ => by simp

theorem mupgradeHandle_reports (n : UpgradeNode) (msg : NodeMessage) :
    ReportsOwn (mupgradeHandle n msg) := by
  cases msg with
  | status e status => exact mupgradeStatus_reports e status n
  | data e packet =>
    have hwrite : mupgradeHandle n (.data e packet) = mupgradeWrite e packet n := rfl
    rw [hwrite, mupgradeWrite]
    split
    · exact writePacket_reports e packet _ n
    · exact writePacket_reports e packet _ n
    · exact reportsOwn_of_silent fun _ _ => by simp

/-! ## `mupgrade_stop` -/

/-- The record of a firmware that has been stopped. -/
def MupgradeConfig.stopped (g : MupgradeConfig) : MupgradeConfig :=
  { g with
    status := { g.status with type := mupgradeTypeData, errorCode := .stop, writtenSize := 0 }
    progressArray := fun _ => 0 }

theorem mupgradeStop_none (e : StopEnv) (h : n.gUpgradeConfig = none) :
    mupgradeStop e n = (n, [], .ok) := by
  rw [mupgradeStop, h]

/-- The firmware is stopped, or a firmware that is complete cannot be kept from being booted. -/
theorem mupgradeStop_some (e : StopEnv) (h : n.gUpgradeConfig = some g) :
    ((mupgradeStop e n).1 = n ∧ Silent (mupgradeStop e n).2.1) ∨
      ((mupgradeStop e n).1 = { n with gUpgradeConfig := some g.stopped, info := none } ∧
        ReportsOwn (mupgradeStop e n)) := by
  have hstop : ∀ calls, Silent calls → ReportsOwn (stopReport e g n calls) := by
    intro calls hcalls status b hmem
    have hnone := hcalls status b
    have hreport : .mwifiWrite status b = NodeCall.mwifiWrite g.stopped.status false := by
      simpa [stopReport, hnone, MupgradeConfig.stopped] using hmem
    cases hreport
    exact ⟨_, rfl, rfl, fun hpart => absurd rfl hpart⟩
  rw [mupgradeStop, h]
  dsimp only
  split
  · split
    · exact .inl ⟨rfl, fun _ _ => by simp⟩
    · exact .inr ⟨rfl, hstop _ fun _ _ => by simp⟩
  · exact .inr ⟨rfl, hstop _ fun _ _ => by simp⟩

theorem mupgradeStop_reports (e : StopEnv) (n : UpgradeNode) :
    ReportsOwn (returned (mupgradeStop e n)) := by
  change ReportsOwn (mupgradeStop e n)
  cases h : n.gUpgradeConfig with
  | none =>
    rw [mupgradeStop_none e h]
    exact reportsOwn_of_silent fun _ _ => by simp
  | some g =>
    rcases mupgradeStop_some e h with ⟨-, hsilent⟩ | ⟨-, hreports⟩
    · exact reportsOwn_of_silent hsilent
    · exact hreports

end Reports

/-! ## On the way to the root -/

/-- The message is what device `a` has made of its record `g`. -/
structure Describes (c : UpgradeCall) (a : Mac) (g : MupgradeConfig) (q : FirmwareStatus) :
    Prop where
  srcAddr : q.srcAddr = a
  errorCode : q.errorCode = c.errorCode g.status.errorCode
  totalSize : q.totalSize = g.status.totalSize
  writtenSize : q.writtenSize = g.status.writtenSize
  progress : q.writtenSize ≠ 0 → q.writtenSize ≠ q.totalSize → q.progressArray = g.progressArray

theorem report_describes {c : UpgradeCall} {a : Mac} {behind : ℕ → UInt8} {ret : Type}
    {r : UpgradeNode × List NodeCall × ret} (h : ReportsOwn r) {q : FirmwareStatus}
    (hq : q ∈ r.2.1.filterMap (reportOf c a behind r.1)) :
    ∃ g, r.1.gUpgradeConfig = some g ∧ Describes c a g q := by
  obtain ⟨call, hcall, hreport⟩ := List.mem_filterMap.mp hq
  cases call with
  | mwifiWrite status withProgress =>
    obtain ⟨g, hconfig, rfl, hprogress⟩ := h _ _ hcall
    cases hreport
    refine ⟨g, hconfig, rfl, rfl, rfl, rfl, fun hpart hopen => ?_⟩
    dsimp only at hpart hopen ⊢
    rw [if_pos (hprogress hpart hopen)]
    simp [UpgradeNode.config, hconfig]
  | _ => cases hreport

/-! ## A device that takes the firmware -/

structure Halted (c : SendCall) (name : Bytes 32) (p : ℕ) (n : UpgradeNode) (g : MupgradeConfig) :
    Prop where
  config : n.gUpgradeConfig = some g
  sameName : g.status.name = name
  sameSize : g.status.totalSize = c.totalSize
  stopped : g.status.errorCode = .stop
  unwritten : g.status.writtenSize = 0
  partition : g.partition = some p

/-- The device has begun with the firmware, in partition `p`, and has not been reset since. -/
def Taking (c : SendCall) (name : Bytes 32) (p : ℕ) (n : UpgradeNode) : Prop :=
  ∃ g, Marking c name p n g ∨ Halted c name p n g

/-- The packet is in the partition, and unless the device has stopped, it is marked. -/
structure HasPacket (c : SendCall) (p : ℕ) (n : UpgradeNode) (i : ℕ) : Prop where
  there : PacketThere c (n.flash p) i
  marked : ∀ g, n.gUpgradeConfig = some g → g.status.errorCode ≠ .stop → g.bit i = true

/-- What a message says of a device that takes the firmware. -/
structure Truthful (c : SendCall) (p : ℕ) (n : UpgradeNode) (q : FirmwareStatus) : Prop where
  image : q.writtenSize = q.totalSize → ∀ i < c.packetNum, HasPacket c p n i
  packet : q.writtenSize ≠ 0 → q.writtenSize ≠ q.totalSize →
    ∀ i < c.packetNum, mupgradeGetBits q.progressArray i = true → HasPacket c p n i

theorem Truthful.kept {c : SendCall} {p : ℕ} {n n' : UpgradeNode} {q : FirmwareStatus}
    (h : Truthful c p n q) (hkept : ∀ i, HasPacket c p n i → HasPacket c p n' i) :
    Truthful c p n' q :=
  ⟨fun hall i hi => hkept i (h.image hall i hi),
    fun hpart hopen i hi hbit => hkept i (h.packet hpart hopen i hi hbit)⟩

section Taking
variable {c : SendCall} {name : Bytes 32} {p : ℕ} {n n' : UpgradeNode} {g : MupgradeConfig}

theorem Taking.config (h : Taking c name p n) : ∃ g, n.gUpgradeConfig = some g ∧
    g.status.name = name ∧ g.status.totalSize = c.totalSize ∧ g.partition = some p := by
  obtain ⟨g, h | h⟩ := h
  · exact ⟨g, h.config, h.sameName, h.sameSize, h.partition⟩
  · exact ⟨g, h.config, h.sameName, h.sameSize, h.partition⟩

theorem Taking.marking (h : Taking c name p n) (hconfig : n.gUpgradeConfig = some g)
    (hstop : g.status.errorCode ≠ .stop) : Marking c name p n g := by
  obtain ⟨g', h | h⟩ := h
  · cases hconfig.symm.trans h.config
    exact h
  · cases hconfig.symm.trans h.config
    exact absurd h.stopped hstop

theorem Marking.hasPacket (h : Marking c name p n g) {i : ℕ} (hi : i < c.packetNum)
    (hbit : g.bit i = true) : HasPacket c p n i := by
  refine ⟨h.there i hi hbit, fun g' hg' _ => ?_⟩
  cases hg'.symm.trans h.config
  exact hbit

theorem Halted.hasPacket (h : Halted c name p n' g) (hflash : n'.flash = n.flash) {i : ℕ}
    (hi : HasPacket c p n i) : HasPacket c p n' i := by
  refine ⟨hflash ▸ hi.there, fun g' hg' hstop => ?_⟩
  cases hg'.symm.trans h.config
  exact absurd h.stopped hstop

variable (hpos : 0 < c.totalSize)
  (hmax : c.totalSize ≤ mupgradePacketMaxNum * mupgradePacketMaxSize)

include hpos hmax in
/-- What a device reports of the firmware is so. -/
theorem Taking.truthful {d : UpgradeCall} {a : Mac} (h : Taking c name p n)
    (hconfig : n.gUpgradeConfig = some g) {q : FirmwareStatus} (hq : Describes d a g q) :
    Truthful c p n q := by
  obtain ⟨g', h | h⟩ := h
  · cases hconfig.symm.trans h.config
    refine ⟨fun hall i hi => h.hasPacket hi ?_, fun hpart hopen i hi hbit => h.hasPacket hi ?_⟩
    · refine (h.complete_iff hmax).mp ?_ i hi
      rw [← hq.writtenSize, hall, hq.totalSize, h.sameSize]
    · rwa [MupgradeConfig.bit, ← hq.progress hpart hopen]
  · cases hconfig.symm.trans h.config
    have hzero := hq.writtenSize.trans h.unwritten
    refine ⟨fun hall => ?_, fun hpart => absurd hzero hpart⟩
    have htotal := hq.totalSize.trans h.sameSize
    omega

/-! ## Steps of a device -/

theorem partitionWrite_keeps (e : WriteEnv) {packet : MupgradePacket} {flash : ℕ → Flash}
    (hpacket : c.PacketAt packet.seq packet.size packet.data) {i : ℕ}
    (hi : PacketThere c (flash p) i) :
    PacketThere c (partitionWrite e (some p) (packet.seq * mupgradePacketMaxSize) packet.size
      packet.data flash p) i := by
  intro k hk
  rw [partitionWrite_self]
  exact program_stable hpacket.bytes (hi k hk)

include hmax in
theorem Marking.keeps_there (h : Marking c name p n g) {msg : NodeMessage}
    (hmsg : OfFirmware c name msg) {i : ℕ} (hi : PacketThere c (n.flash p) i) :
    PacketThere c ((nodeStep n msg).flash p) i := by
  cases msg with
  | status e status =>
    rw [nodeStep, mupgradeHandle, status_same h e hmsg.1 hmsg.2]
    exact hi
  | data e packet =>
    obtain ⟨c', htotal, hpartition, hsent⟩ := hmsg
    have hpacket := (sent_packetAt hsent).congr htotal hpartition
    have hkept := partitionWrite_keeps e hpacket hi
    rw [← h.partition] at hkept
    rw [nodeStep, handle_packet h hmax e hpacket]
    dsimp only
    split
    · exact hi
    · split
      · exact hkept
      · obtain ⟨g', -, hflash, -⟩ := writeDone_counted e packet (n.flashed e packet g)
          [.partitionWrite g.partition (packet.seq * mupgradePacketMaxSize) packet.size]
          (h.not_empty hmax hpacket.inside)
        rw [hflash]
        exact hkept

theorem OfFirmware.inside {e : WriteEnv} {packet : MupgradePacket}
    (hmsg : OfFirmware c name (.data e packet)) : packet.seq < c.packetNum := by
  obtain ⟨c', htotal, hpartition, hsent⟩ := hmsg
  exact ((sent_packetAt hsent).congr htotal hpartition).inside

include hmax in
/-- A mark is set with its packet and stays. -/
theorem Marking.keeps_bit (h : Marking c name p n g) {msg : NodeMessage}
    (hmsg : OfFirmware c name msg) {g' : MupgradeConfig}
    (hconfig : (nodeStep n msg).gUpgradeConfig = some g') {i : ℕ} (hi : g.bit i = true) :
    g'.bit i = true := by
  cases msg with
  | status e status =>
    rw [nodeStep, mupgradeHandle, status_same h e hmsg.1 hmsg.2] at hconfig
    cases hconfig
    exact hi
  | data e packet =>
    obtain ⟨g₁, hg₁, ⟨rfl, -⟩ | ⟨-, hcounted⟩⟩ :=
      data_config (e := e) packet (record_of_config h.config e.loaded)
        (h.not_empty hmax hmsg.inside) h.notStopped
    · cases hg₁.symm.trans hconfig
      exact hi
    · cases hg₁.symm.trans hconfig
      rw [hcounted.bit, hi, Bool.true_or]

theorem Halted.step (h : Halted c name p n g) {msg : NodeMessage} (hmsg : OfFirmware c name msg) :
    (∃ g', Halted c name p (nodeStep n msg) g') ∧ (nodeStep n msg).flash = n.flash := by
  cases msg with
  | status e status =>
    have hconfig : n.config e.loaded = g := by
      simp [UpgradeNode.config, h.config]
    have hsame : mupgradeStatus e status n = statusExit e .ok g n [] := by
      rw [mupgradeStatus, hconfig]
      exact if_pos ⟨h.sameName.trans hmsg.1.symm, h.sameSize.trans hmsg.2.symm⟩
    rw [nodeStep, mupgradeHandle, hsame]
    exact ⟨⟨_, rfl, h.sameName, h.sameSize, if_pos h.stopped, h.unwritten, h.partition⟩, rfl⟩
  | data e packet =>
    have hwrite : mupgradeHandle n (.data e packet) = writePacket e packet g n := by
      simp [mupgradeHandle, mupgradeWrite, h.config]
    rw [nodeStep, hwrite, writePacket, if_pos h.stopped]
    exact ⟨⟨_, rfl, h.sameName, h.sameSize, h.stopped, rfl, h.partition⟩, rfl⟩

include hmax in
/-- **A message.** The device goes on with the firmware and loses nothing of it. -/
theorem Taking.step (h : Taking c name p n) {msg : NodeMessage} (hmsg : OfFirmware c name msg) :
    Taking c name p (nodeStep n msg) ∧
      ∀ i, HasPacket c p n i → HasPacket c p (nodeStep n msg) i := by
  obtain ⟨g, h | h⟩ := h
  · obtain ⟨g', hstepped⟩ := msg_stepped h hmax hmsg
    refine ⟨⟨g', .inl hstepped.marking⟩, fun i hi => ⟨h.keeps_there hmax hmsg hi.there, ?_⟩⟩
    intro g₁ hg₁ _
    exact h.keeps_bit hmax hmsg hg₁ (hi.marked g h.config h.notStopped)
  · obtain ⟨⟨g', hhalted⟩, hflash⟩ := h.step hmsg
    exact ⟨⟨g', .inr hhalted⟩, fun i hi => hhalted.hasPacket hflash hi⟩

include hmax in
/-- A packet that comes to a device that has not stopped, and is written, is there. -/
theorem Taking.takes (h : Taking c name p n) {e : WriteEnv} {packet : MupgradePacket}
    (hmsg : OfFirmware c name (.data e packet)) (hconfig : n.gUpgradeConfig = some g)
    (hstop : g.status.errorCode ≠ .stop) (hwrite : e.partitionWrite = none) :
    HasPacket c p (nodeStep n (.data e packet)) packet.seq := by
  have hmarking := h.marking hconfig hstop
  have hseq := hmsg.inside
  obtain ⟨g', hstepped⟩ := msg_stepped hmarking hmax hmsg
  refine hstepped.marking.hasPacket hseq ?_
  obtain ⟨g₁, hg₁, ⟨rfl, hrefuses⟩ | ⟨-, hcounted⟩⟩ :=
    data_config (e := e) packet (record_of_config hconfig e.loaded)
      (hmarking.not_empty hmax hseq) hstop
  · cases hg₁.symm.trans hstepped.marking.config
    rcases hrefuses with (hstopped | hrange | hbit) | hfails
    · exact absurd hstopped hstop
    · rw [packetNum_eq hmax, Blocks.lt_num_iff (by decide)] at hseq
      rw [hmarking.sameSize] at hrange
      omega
    · exact hbit
    · simp [hwrite] at hfails
  · cases hg₁.symm.trans hstepped.marking.config
    rw [hcounted.bit, decide_eq_true rfl, Bool.or_true]

theorem Taking.stop (h : Taking c name p n) (e : StopEnv) :
    Taking c name p (mupgradeStop e n).1 ∧
      ∀ i, HasPacket c p n i → HasPacket c p (mupgradeStop e n).1 i := by
  obtain ⟨g, hconfig, hname, hsize, hpartition⟩ := h.config
  rcases mupgradeStop_some e hconfig with ⟨hsame, -⟩ | ⟨hstopped, -⟩
  · rw [hsame]
    exact ⟨h, fun _ hi => hi⟩
  · have hhalted : Halted c name p (mupgradeStop e n).1 g.stopped := by
      rw [hstopped]
      exact ⟨rfl, hname, hsize, rfl, rfl, hpartition⟩
    exact ⟨⟨_, .inr hhalted⟩, fun i hi => hhalted.hasPacket (by rw [hstopped]) hi⟩

end Taking

/-! ## A device that has not begun -/

/-- The device has no record of this firmware, and none of an empty one in use. -/
structure Elsewhere (c : SendCall) (name : Bytes 32) (n : UpgradeNode) : Prop where
  other : ∀ loaded, ¬ ((n.config loaded).status.name = name ∧
    (n.config loaded).status.totalSize = c.totalSize)
  positive : ∀ g, n.gUpgradeConfig = some g → 0 < g.status.totalSize

/-- The device is not the root, finds its partitions, and has the new one erased. -/
structure StatusEnv.Begins (c : SendCall) (e : StatusEnv) : Prop where
  notRoot : e.isRoot = false
  runs : e.running.isSome = true
  updates : e.update.isSome = true
  begins : e.otaBegin = none
  blank : ∀ a < c.totalSize, e.erased a = NorFlash.erased

section Elsewhere
variable {c : SendCall} {name : Bytes 32} {n : UpgradeNode}

/-- `esp_ota_begin` has returned; whether the record can be saved or not is the same here. -/
theorem statusBegin_exit {e : StatusEnv} (hbegin : e.otaBegin = none) (update : ℕ)
    (g : MupgradeConfig) (n : UpgradeNode) : ∃ ret n' calls, ret ≠ .stop ∧
      n'.flash update = e.erased ∧ statusBegin e update g n =
        statusExit e ret { g with partition := some update, handle := e.handle } n' calls := by
  unfold statusBegin
  rw [hbegin]
  cases hsave : e.infoSave with
  | none => exact ⟨_, _, _, MdfErr.noConfusion, Function.update_self .., rfl⟩
  | some code => exact ⟨_, _, _, espErr_ne_stop _, Function.update_self .., rfl⟩

theorem Elsewhere.begins (h : Elsewhere c name n) {e : StatusEnv} (he : e.Begins c)
    {status : MupgradeStatus} (hname : status.name = name) (hsize : status.totalSize = c.totalSize)
    (hstop : status.errorCode ≠ .stop) : ∃ p, Taking c name p (nodeStep n (.status e status)) := by
  obtain ⟨running, hrunning⟩ := Option.isSome_iff_exists.mp he.runs
  obtain ⟨p, hupdate⟩ := Option.isSome_iff_exists.mp he.updates
  have hother : ¬ ((n.config e.loaded).status.name = status.name ∧
      (n.config e.loaded).status.totalSize = status.totalSize) := by
    rw [hname, hsize]
    exact h.other e.loaded
  have hbegin : mupgradeStatus e status n = statusBegin e p
      { MupgradeConfig.zero with status := { status with writtenSize := 0 } }
      { n with gUpgradeFinishedFlag := false } := by
    unfold mupgradeStatus
    dsimp only
    rw [if_neg hother, he.notRoot, if_neg Bool.false_ne_true, hrunning, hupdate]
  obtain ⟨ret, n', calls, hret, hflash, hexit⟩ := statusBegin_exit he.begins p
    { MupgradeConfig.zero with status := { status with writtenSize := 0 } }
    { n with gUpgradeFinishedFlag := false }
  rw [nodeStep, mupgradeHandle, hbegin, hexit]
  have hclear : ∀ i, mupgradeGetBits (fun _ => 0) i = false := fun i =>
    (mupgradeGetBits_eq _ i).trans (BitArray.get_clear i)
  refine ⟨p, _, .inl ⟨rfl, hname, hsize, ?_, rfl, ?_, fun i _ hbit => ?_, ?_⟩⟩
  · dsimp only
    rw [if_neg hstop]
    exact hret
  · apply Accepts.of_erased
    intro a ha
    exact (congrFun hflash a).trans (he.blank a ha)
  · exact absurd ((hclear i).symm.trans hbit) Bool.false_ne_true
  · exact (Blocks.sizes_none _ _ hclear).symm

/-- Whatever the device has on record is stopped, and the record is still another one. -/
theorem Elsewhere.stop (h : Elsewhere c name n) (e : StopEnv) :
    Elsewhere c name (mupgradeStop e n).1 := by
  cases hconfig : n.gUpgradeConfig with
  | none =>
    rw [mupgradeStop_none e hconfig]
    exact h
  | some g =>
    rcases mupgradeStop_some e hconfig with ⟨hsame, -⟩ | ⟨hstopped, -⟩
    · rw [hsame]
      exact h
    · have hother := h.other true
      have hpositive := h.positive g hconfig
      simp only [UpgradeNode.config, hconfig] at hother
      rw [hstopped]
      refine ⟨fun _ => hother, fun g' hg' => ?_⟩
      cases hg'
      exact hpositive

/-- It reports that it has stopped. -/
theorem Elsewhere.stop_report (h : Elsewhere c name n) (e : StopEnv) {d : UpgradeCall} {a : Mac}
    {behind : ℕ → UInt8} {q : FirmwareStatus}
    (hq : q ∈ (mupgradeStop e n).2.1.filterMap (reportOf d a behind (mupgradeStop e n).1)) :
    q.errorCode = d.mdfErrMupgradeStop ∧ q.writtenSize = 0 ∧ q.writtenSize ≠ q.totalSize := by
  cases hconfig : n.gUpgradeConfig with
  | none =>
    rw [mupgradeStop_none e hconfig] at hq
    cases hq
  | some g =>
    rcases mupgradeStop_some e hconfig with ⟨-, hsilent⟩ | ⟨hstopped, hreports⟩
    · obtain ⟨call, hcall, hreport⟩ := List.mem_filterMap.mp hq
      cases call with
      | mwifiWrite status b => exact absurd hcall (hsilent status b)
      | _ => cases hreport
    · obtain ⟨g', hg', hdescribes⟩ := report_describes hreports hq
      rw [hstopped] at hg'
      cases hg'
      have htotal : 0 < g.status.totalSize := h.positive g hconfig
      have hwritten : q.writtenSize = 0 := hdescribes.writtenSize
      refine ⟨hdescribes.errorCode.trans d.stopCode, hwritten, ?_⟩
      rw [hwritten, hdescribes.totalSize]
      exact Nat.ne_of_lt htotal

end Elsewhere

end EspMesh
