import EspMesh.Proof.SavedRecord

/-! # What a message to a device comes to

Each message is followed once, to the state, the calls and the result that it ends with. What is
said of all messages is then said case by case.
-/

namespace EspMesh
set_option autoImplicit false
open ByteMem NorFlash

/-! ## A packet -/

/-- `written_percentage`; no packet gets that far with a total size of 0. -/
def MupgradeConfig.percentage (g : MupgradeConfig) : ℕ :=
  g.status.writtenSize * 100 % 4294967296 / g.status.totalSize

/-- A record that was stopped, as it is answered. -/
def MupgradeConfig.cleared (g : MupgradeConfig) : MupgradeConfig :=
  { g with
    status := { g.status with type := mupgradeTypeData, writtenSize := 0 }
    progressArray := fun _ => 0 }

/-- The result of `esp_ota_set_boot_partition` is kept. -/
def MupgradeConfig.switched (e : WriteEnv) (g : MupgradeConfig) : MupgradeConfig :=
  { g with status := { g.status with errorCode := espErr e.setBoot } }

def MupgradeConfig.writeCall (packet : MupgradePacket) (g : MupgradeConfig) : NodeCall :=
  .partitionWrite g.partition (packet.seq * mupgradePacketMaxSize) packet.size

namespace UpgradeNode
variable (n : UpgradeNode)

def withConfig (g : MupgradeConfig) : UpgradeNode := { n with gUpgradeConfig := some g }

def withInfo (info : Option MupgradeConfig) : UpgradeNode := { n with info := info }

/-- The record has been counted, and saved if its percentage is the next one. -/
def reported (e : WriteEnv) (g : MupgradeConfig) : UpgradeNode :=
  let report := g.percentage = n.sNextWrittenPercentage
  { n with
    gUpgradeConfig := some g
    sNextWrittenPercentage := n.sNextWrittenPercentage +
      if report then mupgradeStatusReportInterval else 0
    info := if report ∧ e.infoSave.isNone then some g.saved else n.info }

def reportCalls (g : MupgradeConfig) : List NodeCall :=
  if g.percentage = n.sNextWrittenPercentage then [.infoSave, .event (.status g.percentage)]
  else []

end UpgradeNode

/-- What becomes of a device with a packet, the calls, and the result. -/
inductive PacketOutcome (e : WriteEnv) (packet : MupgradePacket) (n : UpgradeNode) :
    UpgradeNode × List NodeCall × Option MdfErr → Prop
  | notInit (h : n.record e.loaded = none) : PacketOutcome e packet n (n, [], some .notInit)
  | stopped (g : MupgradeConfig) (h : n.record e.loaded = some g)
      (hstop : g.status.errorCode = .stop) :
      PacketOutcome e packet n ((n.withConfig g.cleared).withInfo none,
        [.infoErase, .mwifiWrite g.cleared.status false], some (espErr e.mwifiWrite))
  | refused (g : MupgradeConfig) (h : n.record e.loaded = some g) (hrefuses : g.refuses packet)
      (hstop : g.status.errorCode ≠ .stop) (ret : MdfErr) :
      PacketOutcome e packet n (n.withConfig g, [], some ret)
  | fails (g : MupgradeConfig) (h : n.record e.loaded = some g) (hgoes : ¬ g.refuses packet)
      (hwrite : e.partitionWrite.isSome = true) :
      PacketOutcome e packet n
        (n.flashed e packet g, [g.writeCall packet], some .firmwareDownload)
  | divides (g : MupgradeConfig) (h : n.record e.loaded = some g) (hgoes : ¬ g.refuses packet)
      (hwrite : e.partitionWrite = none) (hsize : g.status.totalSize = 0) :
      PacketOutcome e packet n
        (.boot n.info (n.flashed e packet g).flash, [g.writeCall packet], none)
  | counted (g : MupgradeConfig) (h : n.record e.loaded = some g) (hgoes : ¬ g.refuses packet)
      (hwrite : e.partitionWrite = none)
      (hopen : (g.counting packet).status.writtenSize ≠ g.status.totalSize)
      (hsize : g.status.totalSize ≠ 0) :
      PacketOutcome e packet n ((n.flashed e packet g).reported e (g.counting packet),
        [g.writeCall packet] ++ n.reportCalls (g.counting packet), some .ok)
  | bootFails (g : MupgradeConfig) (h : n.record e.loaded = some g) (hgoes : ¬ g.refuses packet)
      (hwrite : e.partitionWrite = none)
      (hdone : (g.counting packet).status.writtenSize = g.status.totalSize)
      (hboot : e.setBoot.isSome = true) (hsize : g.status.totalSize ≠ 0) :
      PacketOutcome e packet n
        ((((n.flashed e packet g).reported e (g.counting packet)).withConfig
            ((g.counting packet).switched e)).withInfo none,
          [g.writeCall packet] ++ n.reportCalls (g.counting packet) ++
            [.otaEnd g.handle, .infoErase, .setBootPartition e.update (espErr e.setBoot)],
          some .ok)
  | completes (g : MupgradeConfig) (h : n.record e.loaded = some g) (hgoes : ¬ g.refuses packet)
      (hwrite : e.partitionWrite = none)
      (hdone : (g.counting packet).status.writtenSize = g.status.totalSize)
      (hboot : e.setBoot = none) (hsize : g.status.totalSize ≠ 0) :
      PacketOutcome e packet n
        ({ (((n.flashed e packet g).reported e (g.counting packet)).withConfig
            ((g.counting packet).switched e)).withInfo none with gUpgradeFinishedFlag := true },
          [g.writeCall packet] ++ n.reportCalls (g.counting packet) ++
            [.otaEnd g.handle, .infoErase, .setBootPartition e.update (espErr e.setBoot)] ++
            [.event .finish, .mwifiWrite ((g.counting packet).switched e).status false],
          some (espErr e.mwifiWrite))

theorem mupgradeWrite_outcome (e : WriteEnv) (packet : MupgradePacket) (n : UpgradeNode) :
    PacketOutcome e packet n (mupgradeWrite e packet n) := by
  cases hrecord : n.record e.loaded with
  | none =>
    rw [mupgradeWrite_none hrecord]
    exact .notInit hrecord
  | some g =>
    rw [mupgradeWrite_some hrecord]
    by_cases hstop : g.status.errorCode = .stop
    · rw [writePacket, if_pos hstop]
      exact .stopped g hrecord hstop
    by_cases hgoes : g.refuses packet
    · obtain ⟨ret, hhandle⟩ := writePacket_refuses (e := e) (n := n) hstop hgoes
      rw [hhandle]
      exact .refused g hrecord hgoes hstop ret
    rw [writePacket_goes_on hgoes]
    dsimp only
    by_cases hfails : e.partitionWrite.isSome = true
    · rw [if_pos hfails]
      exact .fails g hrecord hgoes hfails
    rw [if_neg hfails]
    have hwrite : e.partitionWrite = none := by simpa using hfails
    by_cases hsize : g.status.totalSize = 0
    · rw [writeDone_reset e packet _ _ hsize]
      exact .divides g hrecord hgoes hwrite hsize
    by_cases hdone : (g.counting packet).status.writtenSize = g.status.totalSize
    · have hcomplete : (g.status.writtenSize + packet.size) % 4294967296 = g.status.totalSize :=
        hdone
      unfold writeDone
      dsimp only
      rw [if_neg hsize, if_pos hcomplete]
      unfold writeComplete
      dsimp only
      by_cases hboot : e.setBoot.isSome = true
      · rw [if_pos hboot]
        exact .bootFails g hrecord hgoes hwrite hdone hboot hsize
      · rw [if_neg hboot]
        exact .completes g hrecord hgoes hwrite hdone (by simpa using hboot) hsize
    · have hopen : ¬ (g.status.writtenSize + packet.size) % 4294967296 = g.status.totalSize :=
        hdone
      unfold writeDone
      dsimp only
      rw [if_neg hsize, if_neg hopen]
      exact .counted g hrecord hgoes hwrite hdone hsize

/-- To show something of a packet, show it of each outcome. -/
@[elab_as_elim]
theorem mupgradeWrite_cases {motive : UpgradeNode × List NodeCall × Option MdfErr → Prop}
    (e : WriteEnv) (packet : MupgradePacket) (n : UpgradeNode)
    (h : ∀ result, PacketOutcome e packet n result → motive result) :
    motive (mupgradeWrite e packet n) :=
  h _ (mupgradeWrite_outcome e packet n)

/-! ## A request -/

/-- The record of a firmware that is asked for. -/
def MupgradeStatus.fresh (status : MupgradeStatus) : MupgradeConfig :=
  { MupgradeConfig.zero with status := { status with writtenSize := 0 } }

/-- How a request is handled: the firmware is on record, or the root has it, or there is no
partition for it, or it begins. -/
inductive RequestOutcome (e : StatusEnv) (status : MupgradeStatus) (n : UpgradeNode) :
    UpgradeNode × List NodeCall × MdfErr → Prop
  | same (h : (n.config e.loaded).status.firmware = status.firmware) :
      RequestOutcome e status n (statusExit e .ok (n.config e.loaded) n [])
  | root (h : (n.config e.loaded).status.firmware ≠ status.firmware) (hroot : e.isRoot = true) :
      RequestOutcome e status n (statusRoot e status.fresh n)
  | noPartition (h : (n.config e.loaded).status.firmware ≠ status.firmware)
      (hroot : e.isRoot = false) (hnone : e.running = none ∨ e.update = none) :
      RequestOutcome e status n (statusExit e .firmwarePartition status.fresh
        { n with gUpgradeFinishedFlag := false } [])
  | begins (p : ℕ) (h : (n.config e.loaded).status.firmware ≠ status.firmware)
      (hroot : e.isRoot = false) (hrunning : e.running.isSome = true)
      (hupdate : e.update = some p) :
      RequestOutcome e status n
        (statusBegin e p status.fresh { n with gUpgradeFinishedFlag := false })

theorem mupgradeStatus_outcome (e : StatusEnv) (status : MupgradeStatus) (n : UpgradeNode) :
    RequestOutcome e status n (mupgradeStatus e status n) := by
  by_cases hsame : (n.config e.loaded).status.firmware = status.firmware
  · rw [mupgradeStatus_same e hsame]
    exact .same hsame
  have hother := (firmware_eq_iff _ _).not.mp hsame
  unfold mupgradeStatus
  dsimp only
  rw [if_neg hother]
  by_cases hroot : e.isRoot = true
  · rw [if_pos hroot]
    exact .root hsame hroot
  rw [if_neg hroot]
  have hnode : e.isRoot = false := by simpa using hroot
  cases hrunning : e.running with
  | none => exact .noPartition hsame hnode (.inl hrunning)
  | some r =>
    cases hupdate : e.update with
    | none => exact .noPartition hsame hnode (.inr hupdate)
    | some p => exact .begins p hsame hnode (by rw [hrunning]; rfl) hupdate

@[elab_as_elim]
theorem mupgradeStatus_cases {motive : UpgradeNode × List NodeCall × MdfErr → Prop}
    (e : StatusEnv) (status : MupgradeStatus) (n : UpgradeNode)
    (h : ∀ result, RequestOutcome e status n result → motive result) :
    motive (mupgradeStatus e status n) :=
  h _ (mupgradeStatus_outcome e status n)

/-! ## The calls of an event -/

/-- The record in use. -/
def UpgradeNode.inUse (n : UpgradeNode) : MupgradeConfig := n.config false

/-- The firmware in progress: the one that a request is for, or that on record. -/
def firmwareInProgress (n : UpgradeNode) : NodeEvent → Firmware
  | .msg (.status _ status) => status.firmware
  | .msg (.data e _) | .cut e _ => (n.config e.loaded).status.firmware
  | .reset => n.inUse.status.firmware

/-- A call in front of those that end an upgrade. -/
def NodeCall.beforeEnd : NodeCall → Bool
  | .otaEnd _ | .infoErase => false
  | _ => true

/-- A reset in the middle of a packet comes in front of the calls that end the upgrade. -/
def eventCalls (n : UpgradeNode) : NodeEvent → List NodeCall
  | .msg msg => (mupgradeHandle n msg).2.1
  | .reset => []
  | .cut e packet => (mupgradeWrite e packet n).2.1.takeWhile NodeCall.beforeEnd

theorem counted_beforeEnd (packet : MupgradePacket) (n : UpgradeNode) (g g' : MupgradeConfig) :
    ∀ call ∈ [g.writeCall packet] ++ n.reportCalls g', call.beforeEnd = true := by
  intro call hcall
  simp only [UpgradeNode.reportCalls, List.singleton_append, List.mem_cons] at hcall
  rcases hcall with rfl | hcall
  · rfl
  · split at hcall
    · simp only [List.mem_cons, List.not_mem_nil, or_false] at hcall
      rcases hcall with rfl | rfl <;> rfl
    · cases hcall

/-! ## What is written to flash -/

def NodeCall.isPartitionWrite : NodeCall → Bool
  | .partitionWrite _ _ _ => true
  | _ => false

def NodeCall.isSetBoot : NodeCall → Bool
  | .setBootPartition _ _ => true
  | _ => false

/-- The packet is written to the partition on record. -/
def UpgradeNode.WritesTo (n : UpgradeNode) (e : WriteEnv) (packet : MupgradePacket)
    (g : MupgradeConfig) : Prop :=
  n.record e.loaded = some g ∧ ¬ g.refuses packet

section Writes
variable {e : WriteEnv} {packet : MupgradePacket} {n : UpgradeNode} {g : MupgradeConfig}

theorem reportCalls_no_write (n : UpgradeNode) (g : MupgradeConfig) :
    ∀ call ∈ n.reportCalls g, call.isPartitionWrite = false := by
  intro call hcall
  unfold UpgradeNode.reportCalls at hcall
  split at hcall
  · simp only [List.mem_cons, List.not_mem_nil, or_false] at hcall
    rcases hcall with rfl | rfl <;> rfl
  · cases hcall

/-- A packet that is written is written first, and at once. -/
theorem write_calls (h : n.WritesTo e packet g) : ∃ more,
    (mupgradeWrite e packet n).2.1 = g.writeCall packet :: more ∧
      ∀ call ∈ more, call.isPartitionWrite = false := by
  obtain ⟨hrecord, hgoes⟩ := h
  have hquiet : ∀ (g' : MupgradeConfig) (rest : List NodeCall),
      (∀ call ∈ rest, call.isPartitionWrite = false) →
        ∀ call ∈ n.reportCalls g' ++ rest, call.isPartitionWrite = false := by
    intro g' rest hrest call hcall
    rcases List.mem_append.mp hcall with hcall | hcall
    · exact reportCalls_no_write n g' call hcall
    · exact hrest call hcall
  refine mupgradeWrite_cases e packet n fun result hcases => ?_
  cases hcases with
  | notInit hrecord' => cases hrecord'.symm.trans hrecord
  | stopped g' hrecord' hstop =>
    rw [Option.mem_unique hrecord' hrecord] at hstop
    exact absurd (.inl hstop) hgoes
  | refused g' hrecord' hrefuses =>
    rw [Option.mem_unique hrecord' hrecord] at hrefuses
    exact absurd hrefuses hgoes
  | fails g' hrecord' | divides g' hrecord' =>
    rw [Option.mem_unique hrecord' hrecord]
    exact ⟨[], rfl, fun _ h => (by cases h)⟩
  | counted g' hrecord' =>
    rw [Option.mem_unique hrecord' hrecord]
    exact ⟨_, rfl, reportCalls_no_write n _⟩
  | bootFails g' hrecord' =>
    rw [Option.mem_unique hrecord' hrecord]
    exact ⟨_, rfl, hquiet _ _ (by simp [NodeCall.isPartitionWrite])⟩
  | completes g' hrecord' =>
    rw [Option.mem_unique hrecord' hrecord]
    dsimp only
    rw [List.append_assoc]
    exact ⟨_, rfl, hquiet _ _ (by simp [NodeCall.isPartitionWrite])⟩

theorem no_write_calls (h : ∀ g, ¬ n.WritesTo e packet g) :
    ∀ call ∈ (mupgradeWrite e packet n).2.1, call.isPartitionWrite = false := by
  refine mupgradeWrite_cases e packet n fun result hcases => ?_
  cases hcases with
  | notInit => exact fun _ h => (by cases h)
  | stopped => simp [NodeCall.isPartitionWrite]
  | refused => exact fun _ h => (by cases h)
  | fails g hrecord hgoes => exact absurd ⟨hrecord, hgoes⟩ (h g)
  | divides g hrecord hgoes => exact absurd ⟨hrecord, hgoes⟩ (h g)
  | counted g hrecord hgoes => exact absurd ⟨hrecord, hgoes⟩ (h g)
  | bootFails g hrecord hgoes => exact absurd ⟨hrecord, hgoes⟩ (h g)
  | completes g hrecord hgoes => exact absurd ⟨hrecord, hgoes⟩ (h g)

/-- The only write to flash of a packet. -/
theorem write_mem_iff {call : NodeCall} (hcall : call.isPartitionWrite = true) :
    call ∈ (mupgradeWrite e packet n).2.1 ↔ ∃ g, n.WritesTo e packet g ∧
      call = g.writeCall packet := by
  constructor
  · intro hmem
    by_cases hwrites : ∃ g, n.WritesTo e packet g
    · obtain ⟨g, hg⟩ := hwrites
      obtain ⟨more, hcalls, hmore⟩ := write_calls hg
      rw [hcalls] at hmem
      rcases List.mem_cons.mp hmem with rfl | hmem
      · exact ⟨g, hg, rfl⟩
      · rw [hmore call hmem] at hcall
        cases hcall
    · rw [no_write_calls (not_exists.mp hwrites) call hmem] at hcall
      cases hcall
  · rintro ⟨g, hg, rfl⟩
    obtain ⟨more, hcalls, -⟩ := write_calls hg
    rw [hcalls]
    exact List.mem_cons_self ..

/-- A reset comes behind the write. -/
theorem cut_mem_iff {call : NodeCall} (hcall : call.isPartitionWrite = true) :
    call ∈ (mupgradeWrite e packet n).2.1.takeWhile NodeCall.beforeEnd ↔
      ∃ g, n.WritesTo e packet g ∧ call = g.writeCall packet := by
  constructor
  · intro hmem
    exact (write_mem_iff hcall).mp ((List.takeWhile_sublist _).subset hmem)
  · rintro ⟨g, hg, rfl⟩
    obtain ⟨more, hcalls, -⟩ := write_calls hg
    rw [hcalls, List.takeWhile_cons_of_pos rfl]
    exact List.mem_cons_self ..

theorem exit_no_write (e : StatusEnv) (ret : MdfErr) (g : MupgradeConfig) (n : UpgradeNode)
    {calls : List NodeCall} (hcalls : ∀ call ∈ calls, call.isPartitionWrite = false) :
    ∀ call ∈ (statusExit e ret g n calls).2.1, call.isPartitionWrite = false := by
  obtain ⟨answer, withProgress, events, hexit, hevents, -⟩ := statusExit_spec e ret g n calls
  rw [hexit]
  intro call hcall
  rcases List.mem_append.mp hcall with hcall | hcall
  · rcases List.mem_append.mp hcall with hcall | hcall
    · exact hcalls call hcall
    · obtain ⟨notice, rfl⟩ := hevents call hcall
      rfl
  · rw [List.mem_singleton.mp hcall]
    rfl

/-- A request writes no packet. -/
theorem status_no_write (e : StatusEnv) (status : MupgradeStatus) (n : UpgradeNode) :
    ∀ call ∈ (mupgradeStatus e status n).2.1, call.isPartitionWrite = false := by
  refine mupgradeStatus_cases e status n fun result hcases => ?_
  cases hcases with
  | same => exact exit_no_write e _ _ _ fun _ h => (by cases h)
  | root =>
    unfold statusRoot
    dsimp only
    split
    · exact exit_no_write e _ _ _ (by simp [NodeCall.isPartitionWrite])
    · exact exit_no_write e _ _ _ (by simp [NodeCall.isPartitionWrite])
  | noPartition => exact exit_no_write e _ _ _ fun _ h => (by cases h)
  | begins p =>
    unfold statusBegin
    dsimp only
    split
    · exact exit_no_write e _ _ _ (by simp [NodeCall.isPartitionWrite])
    · split
      · exact exit_no_write e _ _ _ (by simp [NodeCall.isPartitionWrite])
      · exact exit_no_write e _ _ _ (by simp [NodeCall.isPartitionWrite])

end Writes

end EspMesh
