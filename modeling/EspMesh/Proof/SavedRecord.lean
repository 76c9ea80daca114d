import EspMesh.Proof.FailedStart
import EspMesh.Proof.Reassembly

/-! # What a device saves of a firmware

`mdf_info_save` is given the length of the status with its progress array, but the address of the
whole configuration, so the last sixteen bytes of the array are not saved. A record is saved as
it is when none of the packets that these bytes stand for has been written.
-/

namespace EspMesh
set_option autoImplicit false
set_option maxRecDepth 20000
open ByteMem NorFlash StepRuns

/-! ## What is kept -/

def NodeCall.isInfoSave : NodeCall → Bool
  | .infoSave => true
  | _ => false

def NodeCall.isInfoErase : NodeCall → Bool
  | .infoErase => true
  | _ => false

def NodeMessage.saveOk : NodeMessage → Bool
  | .status e _ => e.infoSave.isNone
  | .data e _ => e.infoSave.isNone

/-- The record as it was at the last `mdf_info_save`, unless that has been erased. -/
def noteSave (kept : Option MupgradeConfig) (n : UpgradeNode) :
    NodeEvent → Option MupgradeConfig
  | .msg msg =>
    let (n', calls, _) := mupgradeHandle n msg
    if calls.any NodeCall.isInfoErase then none
    else if calls.any NodeCall.isInfoSave && msg.saveOk then n'.gUpgradeConfig
    else kept
  | .reset => kept
  | .cut e packet =>
    match n.record e.loaded with
    | none => kept
    | some g => if SavesWith e packet g n then some (g.counting packet) else kept

/-- A packet of the firmware of `c`, whatever its bytes are. -/
def SendCall.Has (c : SendCall) (packet : MupgradePacket) : Prop :=
  packet.seq < c.packetNum ∧ packet.size = c.packetSizeAt packet.seq

/-- Requests about one firmware to a device that is not the root, packets of it, and resets. -/
def OfImage (c : SendCall) (name : Bytes 32) : NodeEvent → Prop
  | .msg (.status e status) => ToNode (.status e status) ∧ status.firmware = (name, c.totalSize)
  | .msg (.data _ packet) => c.Has packet
  | .reset => True
  | .cut _ packet => c.Has packet

structure SameProgress (g k : MupgradeConfig) : Prop where
  firmware : g.status.firmware = k.status.firmware
  written : g.status.writtenSize = k.status.writtenSize
  bits : ∀ i < mupgradePacketMaxNum, g.bit i = k.bit i

/-- None of the packets that the last sixteen bytes of the array stand for is marked. -/
def MupgradeConfig.tailClear (g : MupgradeConfig) : Prop :=
  ∀ i < mupgradePacketMaxNum, 3968 ≤ i → g.bit i = false

/-- A record that is saved, and not at once erased again, is saved as a whole. -/
def SavesWhole (w : UpgradeNode × Option MupgradeConfig) : NodeEvent → Prop
  | .msg (.data e packet) => ∀ g, w.1.record e.loaded = some g → SavesWith e packet g w.1 →
    (g.counting packet).status.writtenSize ≠ g.status.totalSize → (g.counting packet).tailClear
  | .cut e packet => ∀ g, w.1.record e.loaded = some g → SavesWith e packet g w.1 →
    (g.counting packet).tailClear
  | _ => True

/-! ## The bits that are saved -/

theorem saved_bit (g : MupgradeConfig) (i : ℕ) :
    g.saved.bit i = (decide (i < 3968) && g.bit i) := by
  have hplace : i / 8 < 45 + mupgradePacketMaxNum / 8 - 61 ↔ i < 3968 := by
    simp only [mupgradePacketMaxNum]
    omega
  rw [MupgradeConfig.bit, MupgradeConfig.bit, mupgradeGetBits_eq, mupgradeGetBits_eq]
  unfold MupgradeConfig.saved BitArray.get
  dsimp only
  by_cases hi : i < 3968
  · rw [if_pos (hplace.mpr hi), decide_eq_true hi, Bool.true_and]
  · rw [if_neg (hplace.not.mpr hi), decide_eq_false hi, Bool.false_and]
    simp

theorem tailClear_iff (g : MupgradeConfig) :
    g.tailClear ↔ ∀ i < mupgradePacketMaxNum, g.saved.bit i = g.bit i := by
  refine forall₂_congr fun i _ => ?_
  rw [saved_bit]
  by_cases hi : i < 3968
  · simp [hi]
  · simp [hi, Nat.le_of_not_lt hi]

/-! ## A packet -/

section Packet
variable {e : WriteEnv} {packet : MupgradePacket} {g : MupgradeConfig} {n : UpgradeNode}

theorem counting_counted (g : MupgradeConfig) (packet : MupgradePacket) :
    Counted packet g (g.counting packet) :=
  ⟨rfl, rfl, rfl, id, rfl, rfl⟩

theorem writePacket_refuses (hstop : g.status.errorCode ≠ .stop) (h : g.refuses packet) :
    ∃ ret, writePacket e packet g n = ({ n with gUpgradeConfig := some g }, [], some ret) := by
  rw [writePacket, if_neg hstop]
  split
  · exact ⟨_, rfl⟩
  · rename_i hrange
    rw [if_pos ((h.resolve_left hstop).resolve_left hrange)]
    exact ⟨_, rfl⟩

theorem writePacket_goes_on (h : ¬ g.refuses packet) :
    writePacket e packet g n =
      let call := .partitionWrite g.partition (packet.seq * mupgradePacketMaxSize) packet.size
      if e.partitionWrite.isSome then (n.flashed e packet g, [call], some .firmwareDownload)
      else writeDone e packet g (n.flashed e packet g) [call] := by
  obtain ⟨hstop, hrest⟩ := not_or.mp h
  obtain ⟨hrange, hbit⟩ := not_or.mp hrest
  rw [writePacket, if_neg hstop, if_neg hrange, if_neg hbit]
  rfl

/-- A firmware that is complete is not kept. -/
theorem writeDone_complete (calls : List NodeCall) (hsize : g.status.totalSize ≠ 0)
    (h : (g.counting packet).status.writtenSize = g.status.totalSize) :
    (writeDone e packet g n calls).1.info = none := by
  have hdone : (g.status.writtenSize + packet.size) % 4294967296 = g.status.totalSize := h
  unfold writeDone
  dsimp only
  rw [if_neg hsize, if_pos hdone]
  unfold writeComplete
  dsimp only
  split <;> rfl

theorem writeDone_incomplete (calls : List NodeCall) (hsize : g.status.totalSize ≠ 0)
    (h : (g.counting packet).status.writtenSize ≠ g.status.totalSize) :
    (writeDone e packet g n calls).1.gUpgradeConfig = some (g.counting packet) ∧
    (writeDone e packet g n calls).1.info =
      (if (g.counting packet).status.writtenSize * 100 % 4294967296 / g.status.totalSize =
          n.sNextWrittenPercentage ∧ e.infoSave.isNone then some (g.counting packet).saved
        else n.info) ∧
    (writeDone e packet g n calls).2.1 = calls ++
      (if (g.counting packet).status.writtenSize * 100 % 4294967296 / g.status.totalSize =
        n.sNextWrittenPercentage then
        [.infoSave, .event (.status ((g.counting packet).status.writtenSize * 100 % 4294967296 /
          g.status.totalSize))]
      else []) ∧
    (writeDone e packet g n calls).1.sNextWrittenPercentage = n.sNextWrittenPercentage +
      if (g.counting packet).status.writtenSize * 100 % 4294967296 / g.status.totalSize =
        n.sNextWrittenPercentage then mupgradeStatusReportInterval else 0 := by
  have hopen : ¬ (g.status.writtenSize + packet.size) % 4294967296 = g.status.totalSize := h
  unfold writeDone
  dsimp only
  rw [if_neg hsize, if_neg hopen]
  exact ⟨rfl, rfl, rfl, rfl⟩

/-- A record that is saved and not erased. -/
theorem data_saves (hrecord : n.record e.loaded = some g) (h : SavesWith e packet g n)
    (hopen : (g.counting packet).status.writtenSize ≠ g.status.totalSize)
    (kept : Option MupgradeConfig) :
    (nodeStep n (.data e packet)).info = some (g.counting packet).saved ∧
      noteSave kept n (.msg (.data e packet)) = some (g.counting packet) := by
  obtain ⟨hgoes, hwrite, hsave, hsize, hpercent⟩ := h
  have hfails : ¬ e.partitionWrite.isSome = true := by simp [hwrite]
  have hhandle := writePacket_goes_on (e := e) (n := n) hgoes
  dsimp only at hhandle
  rw [if_neg hfails, ← mupgradeWrite_some hrecord] at hhandle
  obtain ⟨hconfig, hinfo, hcalls, -⟩ := writeDone_incomplete (e := e) (n := n.flashed e packet g)
    [.partitionWrite g.partition (packet.seq * mupgradePacketMaxSize) packet.size] hsize hopen
  have hreport : (g.counting packet).status.writtenSize * 100 % 4294967296 / g.status.totalSize =
      (n.flashed e packet g).sNextWrittenPercentage := hpercent
  rw [← hhandle] at hconfig hinfo hcalls
  rw [if_pos ⟨hreport, by simp [hsave]⟩] at hinfo
  rw [if_pos hreport] at hcalls
  refine ⟨hinfo, ?_⟩
  rw [noteSave]
  simp [mupgradeHandle, hcalls, hconfig, NodeCall.isInfoErase, NodeCall.isInfoSave,
    NodeMessage.saveOk, hsave]

theorem data_keeps (hrecord : n.record e.loaded = some g) (hstop : g.status.errorCode ≠ .stop)
    (h : ¬ (SavesWith e packet g n ∧
      (g.counting packet).status.writtenSize ≠ g.status.totalSize))
    (kept : Option MupgradeConfig) :
    (nodeStep n (.data e packet)).info = none ∨
      (nodeStep n (.data e packet)).info = n.info ∧
        noteSave kept n (.msg (.data e packet)) = kept := by
  have hwrite := mupgradeWrite_some hrecord packet
  by_cases hgoes : g.refuses packet
  · obtain ⟨ret, hhandle⟩ := writePacket_refuses (e := e) (n := n) hstop hgoes
    rw [← hwrite] at hhandle
    right
    rw [nodeStep, noteSave, mupgradeHandle, hhandle]
    exact ⟨rfl, rfl⟩
  · have hhandle := writePacket_goes_on (e := e) (n := n) hgoes
    dsimp only at hhandle
    rw [← hwrite] at hhandle
    by_cases hfails : e.partitionWrite.isSome = true
    · rw [if_pos hfails] at hhandle
      right
      rw [nodeStep, noteSave, mupgradeHandle, hhandle]
      exact ⟨rfl, rfl⟩
    rw [if_neg hfails] at hhandle
    by_cases hsize : g.status.totalSize = 0
    · rw [writeDone_reset e packet _ _ hsize] at hhandle
      right
      rw [nodeStep, noteSave, mupgradeHandle, hhandle]
      exact ⟨rfl, rfl⟩
    by_cases hopen : (g.counting packet).status.writtenSize = g.status.totalSize
    · left
      rw [nodeStep, mupgradeHandle, hhandle]
      exact writeDone_complete _ hsize hopen
    · right
      obtain ⟨-, hinfo, hcalls, -⟩ := writeDone_incomplete (e := e) (n := n.flashed e packet g)
        [.partitionWrite g.partition (packet.seq * mupgradePacketMaxSize) packet.size] hsize hopen
      rw [← hhandle] at hinfo hcalls
      have hnot : ¬ ((g.counting packet).status.writtenSize * 100 % 4294967296 /
          g.status.totalSize = (n.flashed e packet g).sNextWrittenPercentage ∧
          e.infoSave.isNone = true) := fun hboth =>
        h ⟨⟨hgoes, by simpa using hfails, by simpa using hboth.2, hsize, hboth.1⟩, hopen⟩
      rw [if_neg hnot] at hinfo
      refine ⟨hinfo, ?_⟩
      rw [noteSave]
      by_cases hreport : (g.counting packet).status.writtenSize * 100 % 4294967296 /
          g.status.totalSize = (n.flashed e packet g).sNextWrittenPercentage
      · have hsave : e.infoSave.isNone = false :=
          Bool.eq_false_iff.mpr fun hsave => hnot ⟨hreport, hsave⟩
        rw [if_pos hreport] at hcalls
        simp [mupgradeHandle, hcalls, NodeCall.isInfoErase, NodeMessage.saveOk, hsave]
      · rw [if_neg hreport] at hcalls
        simp [mupgradeHandle, hcalls, NodeCall.isInfoErase, NodeCall.isInfoSave]

/-- What a packet does to the record in use. -/
theorem data_config (packet : MupgradePacket) (hrecord : n.record e.loaded = some g)
    (hsize : g.status.totalSize ≠ 0) (hstop : g.status.errorCode ≠ .stop) : ∃ g',
    (nodeStep n (.data e packet)).gUpgradeConfig = some g' ∧
      (g' = g ∧ (g.refuses packet ∨ e.partitionWrite.isSome = true) ∨
        ¬ g.refuses packet ∧ Counted packet g g') := by
  rw [nodeStep, mupgradeHandle, mupgradeWrite_some hrecord packet]
  by_cases hgoes : g.refuses packet
  · obtain ⟨ret, hhandle⟩ := writePacket_refuses (e := e) (n := n) hstop hgoes
    rw [hhandle]
    exact ⟨g, rfl, .inl ⟨rfl, .inl hgoes⟩⟩
  · rw [writePacket_goes_on hgoes]
    dsimp only
    split
    · rename_i hfails
      exact ⟨g, rfl, .inl ⟨rfl, .inr hfails⟩⟩
    · obtain ⟨g', hconfig, -, hcounted⟩ := writeDone_counted e packet (n.flashed e packet g)
        [.partitionWrite g.partition (packet.seq * mupgradePacketMaxSize) packet.size] hsize
      exact ⟨g', hconfig, .inr ⟨hgoes, hcounted⟩⟩

end Packet

/-! ## The invariant -/

/-- A record of the firmware whose sizes add up. -/
structure Accounted (c : SendCall) (name : Bytes 32) (g : MupgradeConfig) : Prop where
  firmware : g.status.firmware = (name, c.totalSize)
  notStopped : g.status.errorCode ≠ .stop
  inside : ∀ i, c.packetNum ≤ i → g.bit i = false
  written : g.status.writtenSize = Blocks.sizes mupgradePacketMaxSize c.totalSize g.bit

structure RecordKept (c : SendCall) (name : Bytes 32) (w : UpgradeNode × Option MupgradeConfig) :
    Prop where
  config : ∀ g, w.1.gUpgradeConfig = some g → Accounted c name g
  info : ∀ g, w.1.info = some g → Accounted c name g ∧ ∃ k, w.2 = some k ∧ SameProgress g k

section Steps
variable {c : SendCall} {name : Bytes 32} {n : UpgradeNode} {g : MupgradeConfig}
  {kept kept' : Option MupgradeConfig}

theorem RecordKept.record (h : RecordKept c name (n, kept)) {loaded : Bool}
    (hrecord : n.record loaded = some g) : Accounted c name g := by
  obtain ⟨hconfig, hinfo⟩ := h
  obtain ⟨config, _, _, info, _⟩ := n
  cases config with
  | some g' => exact hconfig g hrecord
  | none =>
    cases info <;> cases loaded <;> cases hrecord
    exact (hinfo g rfl).1

/-- Nothing but the record in use has changed. -/
theorem RecordKept.same (h : RecordKept c name (n, kept)) {n' : UpgradeNode}
    (hconfig : ∀ g, n'.gUpgradeConfig = some g → Accounted c name g)
    (hinfo : n'.info = none ∨ n'.info = n.info ∧ kept' = kept) : RecordKept c name (n', kept') := by
  refine ⟨hconfig, fun g hg => ?_⟩
  rcases hinfo with hnone | ⟨hsame, rfl⟩
  · cases hnone.symm.trans hg
  · exact h.info g (hsame.symm.trans hg)

/-- A record without a bit in the part that is not saved is saved as it is. -/
theorem saved_same (h : g.tailClear) : SameProgress g.saved g :=
  ⟨rfl, rfl, (tailClear_iff g).mp h⟩

theorem Accounted.saved (hmax : c.totalSize ≤ mupgradePacketMaxNum * mupgradePacketMaxSize)
    (h : Accounted c name g) (hclear : g.tailClear) : Accounted c name g.saved := by
  refine ⟨h.firmware, h.notStopped, fun i hi => ?_,
    h.written.trans (Blocks.sizes_congr fun i hi => ?_)⟩
  · rw [saved_bit, h.inside i hi, Bool.and_false]
  rw [Blocks.lt_num_iff (by decide)] at hi
  refine ((tailClear_iff g).mp hclear i ?_).symm
  simp only [mupgradePacketMaxNum, mupgradePacketMaxSize] at hi hmax ⊢
  omega

/-- A record is saved as a whole. -/
theorem RecordKept.saves (hmax : c.totalSize ≤ mupgradePacketMaxNum * mupgradePacketMaxSize)
    {n' : UpgradeNode} (hconfig : ∀ g, n'.gUpgradeConfig = some g → Accounted c name g)
    (hinfo : n'.info = some g.saved) (hg : Accounted c name g) (hclear : g.tailClear) :
    RecordKept c name (n', some g) := by
  refine ⟨hconfig, fun g' hg' => ?_⟩
  obtain rfl : g.saved = g' := Option.some.inj (hinfo.symm.trans hg')
  exact ⟨hg.saved hmax hclear, g, rfl, saved_same hclear⟩

/-! ## A request -/

theorem zero_bit {g : MupgradeConfig} (h : g.progressArray = fun _ => 0) (i : ℕ) :
    g.bit i = false := by
  rw [MupgradeConfig.bit, h, mupgradeGetBits_eq]
  exact BitArray.get_clear i

theorem Accounted.start {g : MupgradeConfig} (hfirmware : g.status.firmware = (name, c.totalSize))
    (hstop : g.status.errorCode ≠ .stop) (hprogress : g.progressArray = fun _ => 0)
    (hwritten : g.status.writtenSize = 0) : Accounted c name g :=
  ⟨hfirmware, hstop, fun i _ => zero_bit hprogress i,
    hwritten.trans (Blocks.sizes_none _ _ (zero_bit hprogress)).symm⟩

/-- The answer to a request leaves the sizes and the bits. -/
theorem statusExit_accounted (e : StatusEnv) {ret : MdfErr} (hret : ret ≠ .stop)
    (hg : Accounted c name g) (n : UpgradeNode) (calls : List NodeCall) :
    ∃ g', (statusExit e ret g n calls).1.gUpgradeConfig = some g' ∧ Accounted c name g' ∧
      SameProgress g g' := by
  refine ⟨_, rfl, ⟨hg.firmware, ?_, hg.inside, hg.written⟩, ⟨rfl, rfl, fun i _ => rfl⟩⟩
  dsimp only
  rw [if_neg hg.notStopped]
  exact hret

/-- An answer neither saves nor erases. -/
theorem statusExit_keeps (e : StatusEnv) (ret : MdfErr) (g : MupgradeConfig) (n : UpgradeNode)
    (calls : List NodeCall) : (statusExit e ret g n calls).1.info = n.info ∧
      (statusExit e ret g n calls).2.1.any NodeCall.isInfoErase =
        calls.any NodeCall.isInfoErase ∧
      (statusExit e ret g n calls).2.1.any NodeCall.isInfoSave = calls.any NodeCall.isInfoSave := by
  unfold statusExit
  dsimp only
  refine ⟨rfl, ?_, ?_⟩
  · split
    · simp [NodeCall.isInfoErase]
    · split <;> simp [NodeCall.isInfoErase]
  · split
    · simp [NodeCall.isInfoSave]
    · split <;> simp [NodeCall.isInfoSave]

/-- In front of the answer to a request that starts the firmware: the record is saved, or nothing
is. -/
structure StartsFrom (e : StatusEnv) (n n' : UpgradeNode) (g : MupgradeConfig)
    (calls : List NodeCall) : Prop where
  notErased : calls.any NodeCall.isInfoErase = false
  saved : (calls.any NodeCall.isInfoSave && e.infoSave.isNone) = true → n'.info = some g.saved
  kept : (calls.any NodeCall.isInfoSave && e.infoSave.isNone) = false → n'.info = n.info

theorem mupgradeStatus_starts (e : StatusEnv) (status : MupgradeStatus) (hroot : e.isRoot = false)
    (h : (n.config e.loaded).status.firmware ≠ status.firmware) : ∃ g n' calls ret,
      mupgradeStatus e status n = statusExit e ret g n' calls ∧ ret ≠ .stop ∧
      g.status = { status with writtenSize := 0 } ∧ g.progressArray = (fun _ => 0) ∧
      StartsFrom e n n' g calls := by
  have hother := (firmware_eq_iff _ _).not.mp h
  obtain ⟨_, isRoot, running, update, _, otaBegin, _, _, infoSave, _⟩ := e
  subst hroot
  unfold mupgradeStatus
  dsimp only at hother ⊢
  rw [if_neg hother]
  cases running with
  | none =>
    exact ⟨_, _, _, _, rfl, MdfErr.noConfusion, rfl, rfl, rfl, fun h => (by cases h), fun _ => rfl⟩
  | some r =>
    cases update with
    | none =>
      exact ⟨_, _, _, _, rfl, MdfErr.noConfusion, rfl, rfl, rfl, fun h => (by cases h),
        fun _ => rfl⟩
    | some p =>
      cases otaBegin with
      | some code =>
        exact ⟨_, _, _, _, rfl, MdfErr.noConfusion, rfl, rfl, rfl, fun h => (by cases h),
          fun _ => rfl⟩
      | none =>
        cases infoSave with
        | some code =>
          exact ⟨_, _, _, _, rfl, MdfErr.noConfusion, rfl, rfl, rfl, fun h => (by cases h),
            fun _ => rfl⟩
        | none =>
          exact ⟨_, _, _, _, rfl, MdfErr.noConfusion, rfl, rfl, rfl, fun _ => rfl,
            fun h => (by cases h)⟩

theorem config_accounted (h : RecordKept c name (n, kept)) {loaded : Bool}
    (hfirmware : (n.config loaded).status.firmware = (name, c.totalSize)) :
    Accounted c name (n.config loaded) := by
  cases hrecord : n.record loaded with
  | some g =>
    rw [config_of_record hrecord]
    exact h.record hrecord
  | none =>
    have hzero : n.config loaded = .zero := by
      obtain ⟨config, _, _, info, _⟩ := n
      cases config with
      | some g => cases hrecord
      | none => cases info <;> cases loaded <;> first | rfl | cases hrecord
    rw [hzero] at hfirmware ⊢
    exact .start hfirmware MdfErr.noConfusion rfl rfl

theorem SameProgress.trans {g k m : MupgradeConfig} (h : SameProgress g k)
    (h' : SameProgress k m) : SameProgress g m :=
  ⟨h.firmware.trans h'.firmware, h.written.trans h'.written,
    fun i hi => (h.bits i hi).trans (h'.bits i hi)⟩

theorem status_kept (hmax : c.totalSize ≤ mupgradePacketMaxNum * mupgradePacketMaxSize)
    (h : RecordKept c name (n, kept)) {e : StatusEnv} {status : MupgradeStatus}
    (hnode : ToNode (.status e status)) (hfirmware : status.firmware = (name, c.totalSize)) :
    RecordKept c name (observe nodeEvent noteSave (n, kept) (.msg (.status e status))) := by
  rw [observe, nodeEvent, nodeStep, noteSave, mupgradeHandle, returned]
  dsimp only
  by_cases hsame : (n.config e.loaded).status.firmware = status.firmware
  · have hg := config_accounted h (hsame.trans hfirmware)
    obtain ⟨g', hconfig, hg', -⟩ := statusExit_accounted e
      (show MdfErr.ok ≠ .stop from MdfErr.noConfusion) hg n []
    obtain ⟨hinfo, herase, hsave⟩ := statusExit_keeps e .ok (n.config e.loaded) n []
    rw [mupgradeStatus_same e hsame, herase, hsave]
    refine h.same (fun k hk => ?_) (.inr ⟨hinfo, rfl⟩)
    rwa [← Option.some.inj (hconfig.symm.trans hk)]
  · obtain ⟨g, n', calls, ret, hother, hret, hstatus, hprogress, hstarts⟩ :=
      mupgradeStatus_starts e status hnode.1 hsame
    have hg : Accounted c name g := by
      refine .start ?_ ?_ hprogress ?_
      · rw [hstatus]
        exact hfirmware
      · rw [hstatus]
        exact hnode.2
      · rw [hstatus]
    obtain ⟨g', hconfig, hg', hprogress'⟩ := statusExit_accounted e hret hg n' calls
    obtain ⟨hinfo, herase, hsave⟩ := statusExit_keeps e ret g n' calls
    have hconfig' : ∀ k, (statusExit e ret g n' calls).1.gUpgradeConfig = some k →
        Accounted c name k := by
      intro k hk
      rwa [← Option.some.inj (hconfig.symm.trans hk)]
    rw [hother, herase, hsave, hstarts.notErased]
    cases hsaves : calls.any NodeCall.isInfoSave && e.infoSave.isNone with
    | false =>
      refine h.same hconfig' (.inr ⟨hinfo.trans (hstarts.kept hsaves), ?_⟩)
      rw [NodeMessage.saveOk, hsaves]
      rfl
    | true =>
      rw [NodeMessage.saveOk, hsaves]
      have hclear : g.tailClear := fun i _ _ => zero_bit hprogress i
      refine ⟨hconfig', fun k hk => ?_⟩
      obtain rfl : g.saved = k :=
        Option.some.inj ((hinfo.trans (hstarts.saved hsaves)).symm.trans hk)
      exact ⟨hg.saved hmax hclear, g', hconfig, (saved_same hclear).trans hprogress'⟩

/-! ## A packet of the firmware -/

theorem counting_accounted (hmax : c.totalSize ≤ mupgradePacketMaxNum * mupgradePacketMaxSize)
    {packet : MupgradePacket} (hpacket : c.Has packet) (hg : Accounted c name g)
    (hgoes : ¬ g.refuses packet) {g' : MupgradeConfig} (h : Counted packet g g') :
    Accounted c name g' := by
  obtain ⟨-, hrest⟩ := not_or.mp hgoes
  have hbit : g.bit packet.seq = false := by
    simpa [MupgradeConfig.bit] using (not_or.mp hrest).2
  refine ⟨?_, h.notStopped hg.notStopped, fun i hi => ?_,
    h.written hmax hpacket.1 hpacket.2 hbit hg.written⟩
  · rw [← hg.firmware, firmware_eq_iff]
    exact ⟨h.name, h.totalSize⟩
  · have hne : packet.seq ≠ i := Nat.ne_of_lt (Nat.lt_of_lt_of_le hpacket.1 hi)
    rw [h.bit, hg.inside i hi, decide_eq_false hne]
    rfl

theorem Accounted.not_empty (hg : Accounted c name g)
    (hmax : c.totalSize ≤ mupgradePacketMaxNum * mupgradePacketMaxSize)
    {packet : MupgradePacket} (hpacket : c.Has packet) : g.status.totalSize ≠ 0 := by
  have htotal : g.status.totalSize = c.totalSize := congrArg Prod.snd hg.firmware
  have hinside := hpacket.1
  rw [packetNum_eq hmax, Blocks.lt_num_iff (by decide)] at hinside
  rw [htotal]
  exact Nat.ne_zero_of_lt hinside

theorem data_accounted (hmax : c.totalSize ≤ mupgradePacketMaxNum * mupgradePacketMaxSize)
    {e : WriteEnv} {packet : MupgradePacket} (hpacket : c.Has packet) (hg : Accounted c name g)
    (hrecord : n.record e.loaded = some g) : ∃ g',
      (nodeStep n (.data e packet)).gUpgradeConfig = some g' ∧ Accounted c name g' := by
  obtain ⟨g', hconfig, hsame | ⟨hgoes, hcounted⟩⟩ :=
    data_config packet hrecord (hg.not_empty hmax hpacket) hg.notStopped
  · exact ⟨g', hconfig, hsame.1 ▸ hg⟩
  · exact ⟨g', hconfig, counting_accounted hmax hpacket hg hgoes hcounted⟩

theorem data_none {e : WriteEnv} (hrecord : n.record e.loaded = none) (packet : MupgradePacket)
    (kept : Option MupgradeConfig) :
    observe nodeEvent noteSave (n, kept) (.msg (.data e packet)) = (n, kept) := by
  rw [observe, nodeEvent, nodeStep, noteSave, mupgradeHandle, mupgradeWrite_none hrecord]
  rfl

theorem data_kept (hmax : c.totalSize ≤ mupgradePacketMaxNum * mupgradePacketMaxSize)
    (h : RecordKept c name (n, kept)) {e : WriteEnv} {packet : MupgradePacket}
    (hpacket : c.Has packet) (hsaves : SavesWhole (n, kept) (.msg (.data e packet))) :
    RecordKept c name (observe nodeEvent noteSave (n, kept) (.msg (.data e packet))) := by
  cases hrecord : n.record e.loaded with
  | none =>
    rw [data_none hrecord]
    exact h
  | some g =>
    have hg := h.record hrecord
    obtain ⟨g', hconfig, hg'⟩ := data_accounted hmax hpacket hg hrecord
    have hconfig' : ∀ k, (nodeStep n (.data e packet)).gUpgradeConfig = some k →
        Accounted c name k := by
      intro k hk
      rwa [← Option.some.inj (hconfig.symm.trans hk)]
    by_cases hsave : SavesWith e packet g n ∧
        (g.counting packet).status.writtenSize ≠ g.status.totalSize
    · obtain ⟨hinfo, hnote⟩ := data_saves hrecord hsave.1 hsave.2 kept
      rw [observe, nodeEvent, hnote]
      have hcounting := counting_accounted hmax hpacket hg hsave.1.1 (counting_counted g packet)
      exact RecordKept.saves hmax hconfig' hinfo hcounting (hsaves g hrecord hsave.1 hsave.2)
    · exact h.same hconfig' (data_keeps hrecord hg.notStopped hsave kept)

/-! ## Resets -/

theorem reset_kept (h : RecordKept c name (n, kept)) :
    RecordKept c name (observe nodeEvent noteSave (n, kept) .reset) :=
  h.same (fun _ hg => by cases hg) (.inr ⟨rfl, rfl⟩)

theorem cut_some {e : WriteEnv} (hrecord : n.record e.loaded = some g) (packet : MupgradePacket)
    (kept : Option MupgradeConfig) :
    observe nodeEvent noteSave (n, kept) (.cut e packet) =
      let flash := (mupgradeWrite e packet n).1.flash
      if SavesWith e packet g n then
        (.boot (some (g.counting packet).saved) flash, some (g.counting packet))
      else (.boot n.info flash, kept) := by
  rw [observe, nodeEvent, UpgradeNode.cut, noteSave]
  dsimp only
  rw [hrecord]
  dsimp only
  split <;> rfl

theorem cut_kept (hmax : c.totalSize ≤ mupgradePacketMaxNum * mupgradePacketMaxSize)
    (h : RecordKept c name (n, kept)) {e : WriteEnv} {packet : MupgradePacket}
    (hpacket : c.Has packet) (hsaves : SavesWhole (n, kept) (.cut e packet)) :
    RecordKept c name (observe nodeEvent noteSave (n, kept) (.cut e packet)) := by
  cases hrecord : n.record e.loaded with
  | none =>
    rw [observe, nodeEvent, UpgradeNode.cut, noteSave]
    dsimp only
    rw [hrecord]
    exact h.same (fun _ hg => by cases hg) (.inr ⟨rfl, rfl⟩)
  | some g =>
    rw [cut_some hrecord]
    by_cases hsave : SavesWith e packet g n
    · rw [if_pos hsave]
      have hcounting := counting_accounted hmax hpacket (h.record hrecord) hsave.1
        (counting_counted g packet)
      exact RecordKept.saves hmax (fun _ hg => by cases hg) rfl hcounting (hsaves g hrecord hsave)
    · rw [if_neg hsave]
      exact h.same (fun _ hg => by cases hg) (.inr ⟨rfl, rfl⟩)

/-! ## One event -/

theorem event_kept (hmax : c.totalSize ≤ mupgradePacketMaxNum * mupgradePacketMaxSize)
    (w : UpgradeNode × Option MupgradeConfig) (e : NodeEvent) (h : RecordKept c name w)
    (hof : OfImage c name e) (hsaves : SavesWhole w e) :
    RecordKept c name (observe nodeEvent noteSave w e) := by
  obtain ⟨n, kept⟩ := w
  cases e with
  | msg msg =>
    cases msg with
    | status e status => exact status_kept hmax h hof.1 hof.2
    | data e packet => exact data_kept hmax h hof hsaves
  | reset => exact reset_kept h
  | cut e packet => exact cut_kept hmax h hof hsaves

end Steps

end EspMesh
