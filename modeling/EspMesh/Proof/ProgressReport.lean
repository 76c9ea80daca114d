import EspMesh.Proof.NodeMessage
import EspMesh.Proof.Resume

/-! # When a device reports its progress

`s_next_written_percentage` is compared by equality and set at boot only. It follows the written
percentage of the first firmware of a boot, as long as that does not jump; in every other case the
percentage can get past it, and then no report is made any more.
-/

namespace EspMesh
set_option autoImplicit false
open ByteMem NorFlash StepRuns

/-! ## What is reached -/

/-- How many multiples of the interval the written percentage has reached. -/
def MupgradeConfig.multiples (g : MupgradeConfig) : ℕ :=
  g.status.writtenSize * 100 / g.status.totalSize / mupgradeStatusReportInterval

/-- What the session had reached in front of a message; a session that is resumed goes on with
what was saved. -/
def UpgradeNode.reached (n : UpgradeNode) (loaded : Bool) (reached : ℕ) : ℕ :=
  match n.gUpgradeConfig with
  | some _ => reached
  | none => (n.config loaded).multiples

/-- The multiples that the session has reached; another firmware starts another session. -/
def noteReached (reached : ℕ) (n : UpgradeNode) : NodeEvent → ℕ
  | .msg (.status e status) =>
    if (n.config e.loaded).status.firmware = status.firmware then n.reached e.loaded reached
    else (nodeStep n (.status e status)).inUse.multiples
  | .msg (.data e packet) =>
    max (n.reached e.loaded reached) (nodeStep n (.data e packet)).inUse.multiples
  | .reset | .cut _ _ => 0

def NodeCall.isStatusEvent : NodeCall → Bool
  | .event (.status _) => true
  | _ => false

/-- A packet that brings the session to another multiple saves the progress and posts one
event. -/
def ReportsReached (w : UpgradeNode × ℕ) : NodeEvent → Prop
  | .msg (.data e packet) =>
    w.1.reached e.loaded w.2 < (nodeStep w.1 (.data e packet)).inUse.multiples →
      .infoSave ∈ (mupgradeWrite e packet w.1).2.1 ∧
        (mupgradeWrite e packet w.1).2.1.countP NodeCall.isStatusEvent = 1
  | _ => True

/-- When a packet that is written brings the session to another multiple, the percentage is just
the next one to be reported. -/
def NextDue (w : UpgradeNode × ℕ) : NodeEvent → Prop
  | .msg (.data e packet) => ∀ g, w.1.record e.loaded = some g → ¬ g.refuses packet →
    e.partitionWrite = none → w.1.reached e.loaded w.2 < (g.counting packet).multiples →
      (g.counting packet).percentage = w.1.sNextWrittenPercentage
  | _ => True

/-- The session has reached what is on record. -/
def ReachedNoted (w : UpgradeNode × ℕ) : Prop :=
  ∀ g, w.1.gUpgradeConfig = some g → g.multiples ≤ w.2

section Steps
variable {n : UpgradeNode} {reached : ℕ} {g : MupgradeConfig} {e : WriteEnv}
  {packet : MupgradePacket}

theorem inUse_of_config (h : n.gUpgradeConfig = some g) : n.inUse = g := by
  simp [UpgradeNode.inUse, UpgradeNode.config, h]

theorem config_of_some (h : n.gUpgradeConfig = some g) (loaded : Bool) : n.config loaded = g := by
  simp [UpgradeNode.config, h]

theorem config_of_empty (h : n.gUpgradeConfig = none) (hinfo : n.info = none) (loaded : Bool) :
    n.config loaded = .zero := by
  simp [UpgradeNode.config, h, hinfo]

theorem record_of_empty (h : n.gUpgradeConfig = none) (hinfo : n.info = none) (loaded : Bool) :
    n.record loaded = none := by
  simp [UpgradeNode.record, h, hinfo]

theorem reached_of_some (h : n.gUpgradeConfig = some g) (loaded : Bool) :
    n.reached loaded reached = reached := by
  simp [UpgradeNode.reached, h]

theorem reached_of_none (h : n.gUpgradeConfig = none) (loaded : Bool) :
    n.reached loaded reached = (n.config loaded).multiples := by
  simp [UpgradeNode.reached, h]

theorem zero_multiples : MupgradeConfig.zero.multiples = 0 := by
  simp [MupgradeConfig.multiples, MupgradeConfig.zero]

theorem boot_inUse (info : Option MupgradeConfig) (flash : ℕ → Flash) :
    (UpgradeNode.boot info flash).inUse = .zero := by
  cases info <;> rfl

theorem config_reached (h : ReachedNoted (n, reached)) (loaded : Bool) :
    (n.config loaded).multiples ≤ n.reached loaded reached := by
  cases hconfig : n.gUpgradeConfig with
  | some g =>
    rw [config_of_some hconfig, reached_of_some hconfig]
    exact h g hconfig
  | none => exact (reached_of_none hconfig loaded).ge

theorem record_reached (h : ReachedNoted (n, reached)) {loaded : Bool}
    (hrecord : n.record loaded = some g) : g.multiples ≤ n.reached loaded reached := by
  have hconfig := config_reached h loaded
  rwa [config_of_record hrecord] at hconfig

/-! ## The calls of a packet -/

theorem reportCalls_due (h : g.percentage = n.sNextWrittenPercentage) :
    n.reportCalls g = [.infoSave, .event (.status g.percentage)] :=
  if_pos h

theorem reportCalls_other (h : g.percentage ≠ n.sNextWrittenPercentage) : n.reportCalls g = [] :=
  if_neg h

/-- A packet that has been counted saves and posts exactly when its percentage is the next one. -/
theorem counted_reports_iff (g₀ : MupgradeConfig) (packet : MupgradePacket) {rest : List NodeCall}
    (hrest : rest.countP NodeCall.isStatusEvent = 0 ∧ .infoSave ∉ rest) :
    (.infoSave ∈ [g₀.writeCall packet] ++ n.reportCalls g ++ rest ∧
        ([g₀.writeCall packet] ++ n.reportCalls g ++ rest).countP NodeCall.isStatusEvent = 1) ↔
      g.percentage = n.sNextWrittenPercentage := by
  have hwrite : [g₀.writeCall packet].countP NodeCall.isStatusEvent = 0 := rfl
  rw [List.countP_append, List.countP_append, hwrite, hrest.1]
  by_cases hdue : g.percentage = n.sNextWrittenPercentage
  · rw [reportCalls_due hdue]
    simp [NodeCall.isStatusEvent, hdue]
  · rw [reportCalls_other hdue]
    simp [hdue]

theorem nextDue_iff (hrecord : n.record e.loaded = some g) :
    NextDue (n, reached) (.msg (.data e packet)) ↔ (¬ g.refuses packet →
      e.partitionWrite = none → n.reached e.loaded reached < (g.counting packet).multiples →
        (g.counting packet).percentage = n.sNextWrittenPercentage) := by
  refine ⟨fun h => h g hrecord, fun h g' hrecord' => ?_⟩
  rwa [← Option.some.inj (hrecord.symm.trans hrecord')]

/-- A packet that is not counted reaches nothing. -/
theorem reached_same (h : ReachedNoted (n, reached)) {loaded : Bool}
    (hrecord : n.record loaded = some g) {p : Prop} :
    n.reached loaded reached < g.multiples → p :=
  fun hless => absurd hless (not_lt.mpr (record_reached h hrecord))

/-- A packet that is counted reaches what the percentage says. -/
theorem counted_iff (reached : ℕ) (rest : List NodeCall) (hrecord : n.record e.loaded = some g)
    (hgoes : ¬ g.refuses packet) (hwrite : e.partitionWrite = none)
    (hrest : rest.countP NodeCall.isStatusEvent = 0 ∧ .infoSave ∉ rest) :
    (n.reached e.loaded reached < (g.counting packet).multiples →
        .infoSave ∈ [g.writeCall packet] ++ n.reportCalls (g.counting packet) ++ rest ∧
        ([g.writeCall packet] ++ n.reportCalls (g.counting packet) ++ rest).countP
          NodeCall.isStatusEvent = 1) ↔
      NextDue (n, reached) (.msg (.data e packet)) := by
  rw [nextDue_iff hrecord, counted_reports_iff g packet hrest]
  exact ⟨fun h _ _ => h, fun h => h hgoes hwrite⟩

theorem data_reports_iff (h : ReachedNoted (n, reached)) (e : WriteEnv)
    (packet : MupgradePacket) :
    ReportsReached (n, reached) (.msg (.data e packet)) ↔
      NextDue (n, reached) (.msg (.data e packet)) := by
  rw [ReportsReached, nodeStep, mupgradeHandle]
  dsimp only
  refine mupgradeWrite_cases e packet n fun result hcases => ?_
  cases hcases with
  | notInit hrecord =>
    refine iff_of_true (fun hless => ?_) fun g hrecord' => ?_
    · obtain ⟨hnone, -⟩ := noteLoad_of_no_record hrecord []
      have hzero : n.inUse.multiples = 0 := by
        simp [UpgradeNode.inUse, UpgradeNode.config, hnone, zero_multiples]
      exact absurd (hless.trans_eq hzero) (Nat.not_lt_zero _)
    · cases hrecord.symm.trans hrecord'
  | stopped g hrecord hstop =>
    rw [nextDue_iff hrecord]
    refine iff_of_true (fun hless => ?_) fun hgoes => absurd (.inl hstop) hgoes
    have hzero : g.cleared.multiples = 0 := by
      simp [MupgradeConfig.multiples, MupgradeConfig.cleared]
    exact absurd (hless.trans_eq hzero) (Nat.not_lt_zero _)
  | refused g hrecord hrefuses hstop ret =>
    rw [nextDue_iff hrecord]
    exact iff_of_true (reached_same h hrecord) fun hgoes => absurd hrefuses hgoes
  | fails g hrecord hgoes hwrite =>
    rw [nextDue_iff hrecord]
    refine iff_of_true (reached_same h hrecord) fun _ hok => ?_
    rw [hok] at hwrite
    cases hwrite
  | divides g hrecord hgoes hwrite hsize =>
    rw [nextDue_iff hrecord]
    refine iff_of_true (fun hless => ?_) fun _ _ hless => ?_
    · dsimp only at hless
      rw [boot_inUse, zero_multiples] at hless
      exact absurd hless (Nat.not_lt_zero _)
    · have hzero : (g.counting packet).multiples = 0 := by
        simp [MupgradeConfig.multiples, MupgradeConfig.counting, hsize]
      exact absurd (hless.trans_eq hzero) (Nat.not_lt_zero _)
  | counted g hrecord hgoes hwrite hopen =>
    have hiff := counted_iff reached [] hrecord hgoes hwrite ⟨rfl, List.not_mem_nil⟩
    rwa [List.append_nil] at hiff
  | bootFails g hrecord hgoes hwrite hdone hboot =>
    exact counted_iff reached _ hrecord hgoes hwrite ⟨rfl, by simp⟩
  | completes g hrecord hgoes hwrite hdone hboot =>
    dsimp only
    rw [List.append_assoc]
    exact counted_iff reached _ hrecord hgoes hwrite ⟨rfl, by simp⟩

theorem event_reports_iff (w : UpgradeNode × ℕ) (e : NodeEvent) (h : ReachedNoted w) :
    ReportsReached w e ↔ NextDue w e := by
  obtain ⟨n, reached⟩ := w
  cases e with
  | msg msg =>
    cases msg with
    | status e status => exact Iff.rfl
    | data e packet => exact data_reports_iff h e packet
  | reset => exact Iff.rfl
  | cut e packet => exact Iff.rfl

/-! ## What the observer keeps -/

theorem event_reached (w : UpgradeNode × ℕ) (e : NodeEvent) (h : ReachedNoted w) :
    ReachedNoted (observe nodeEvent noteReached w e) := by
  obtain ⟨n, reached⟩ := w
  intro g hg
  cases e with
  | msg msg =>
    have huse := inUse_of_config hg
    cases msg with
    | status e status =>
      simp only [observe, noteReached]
      split
      · rename_i hsame
        have hstatus := congrArg (·.1.gUpgradeConfig) (mupgradeStatus_same e hsame)
        have hconfig : g.multiples = (n.config e.loaded).multiples := by
          rw [← Option.some.inj (hstatus.symm.trans hg)]
          rfl
        rw [hconfig]
        exact config_reached h e.loaded
      · exact (congrArg MupgradeConfig.multiples huse).ge
    | data e packet =>
      exact (congrArg MupgradeConfig.multiples huse).ge.trans (le_max_right _ _)
  | reset => cases hg
  | cut e packet =>
    simp only [observe, nodeEvent, UpgradeNode.cut] at hg
    split at hg <;> cases hg

end Steps

/-- **Reports of progress.** From any boot on, with any packets, requests and resets, each packet
that brings its session to another multiple saves the progress and posts one event, exactly when
at each of these packets the percentage is the one that `s_next_written_percentage` waits for. -/
theorem progress_reported (info : Option MupgradeConfig) (flash : ℕ → Flash)
    (es : List NodeEvent) :
    Along (observe nodeEvent noteReached) ReportsReached (.boot info flash, 0) es ↔
      Along (observe nodeEvent noteReached) NextDue (.boot info flash, 0) es :=
  along_congr (I := ReachedNoted) (B := fun _ _ => True) (fun w e h _ => event_reached w e h)
    (fun w e h _ => event_reports_iff w e h) (fun _ hg => (by cases hg))
    (along_of_forall fun _ _ _ => trivial)

/-! ## The first session of a boot -/

/-- Requests for one firmware, and packets of at most a hundredth of it, which do not come to more
than the firmware. -/
def Steady (f : Firmware) (n : UpgradeNode) : NodeEvent → Prop
  | .msg (.status e status) => ToNode (.status e status) ∧ status.firmware = f
  | .msg (.data e packet) => packet.size * 100 ≤ f.2 ∧
    ∀ g, n.record e.loaded = some g → g.status.writtenSize + packet.size ≤ f.2
  | .reset | .cut _ _ => False

/-- The next percentage to be reported is the multiple behind the last one reached. -/
structure InStep (f : Firmware) (g : MupgradeConfig) (next reached : ℕ) : Prop where
  firmware : g.status.firmware = f
  notStopped : g.status.errorCode ≠ .stop
  written : g.status.writtenSize ≤ f.2
  reached : reached = g.multiples
  next : next = (g.multiples + 1) * mupgradeStatusReportInterval

/-- No firmware has come yet, or the one on record is in step. -/
def SessionSteady (f : Firmware) (w : UpgradeNode × ℕ) : Prop :=
  w.1.gUpgradeConfig = none ∧ w.1.info = none ∧
      w.1.sNextWrittenPercentage = mupgradeStatusReportInterval ∨
    ∃ g, w.1.gUpgradeConfig = some g ∧ InStep f g w.1.sNextWrittenPercentage w.2

section Session
variable {f : Firmware} {g : MupgradeConfig} {next reached : ℕ} {packet : MupgradePacket}

/-- The percentages of a record in step, in front of a packet and behind it. -/
theorem InStep.percentage (h : InStep f g next reached) (hbound : f.2 * 100 < 4294967296)
    (hsmall : packet.size * 100 ≤ f.2) (hwritten : g.status.writtenSize + packet.size ≤ f.2) :
    (g.counting packet).status.writtenSize = g.status.writtenSize + packet.size ∧
    (g.counting packet).percentage = (g.status.writtenSize + packet.size) * 100 / f.2 ∧
    (g.counting packet).multiples = (g.counting packet).percentage / 10 ∧
    (g.counting packet).percentage ≤ g.status.writtenSize * 100 / f.2 + 1 ∧
    g.status.writtenSize * 100 / f.2 ≤ (g.counting packet).percentage := by
  have htotal : g.status.totalSize = f.2 := congrArg Prod.snd h.firmware
  have hcounted : (g.counting packet).status.writtenSize = g.status.writtenSize + packet.size :=
    Nat.mod_eq_of_lt (by omega)
  have htotal' : (g.counting packet).status.totalSize = f.2 := htotal
  have hpercentage : (g.counting packet).percentage =
      (g.status.writtenSize + packet.size) * 100 / f.2 := by
    rw [MupgradeConfig.percentage, hcounted, htotal', Nat.mod_eq_of_lt (by omega)]
  refine ⟨hcounted, hpercentage, ?_, ?_, ?_⟩
  · rw [hpercentage, MupgradeConfig.multiples, hcounted, htotal']
    rfl
  · rw [hpercentage]
    by_cases hzero : f.2 = 0
    · simp [hzero]
    · calc (g.status.writtenSize + packet.size) * 100 / f.2
          ≤ (g.status.writtenSize * 100 + f.2) / f.2 := Nat.div_le_div_right (by omega)
        _ = g.status.writtenSize * 100 / f.2 + 1 := Nat.add_div_right _ (by omega)
  · rw [hpercentage]
    exact Nat.div_le_div_right (by omega)

/-- A packet moves the percentage by one at most, so it does not get past the next one. -/
theorem InStep.due (h : InStep f g next reached) (hbound : f.2 * 100 < 4294967296)
    (hsmall : packet.size * 100 ≤ f.2) (hwritten : g.status.writtenSize + packet.size ≤ f.2)
    (hless : reached < (g.counting packet).multiples) : (g.counting packet).percentage = next := by
  obtain ⟨-, -, hmultiples, hstep, -⟩ := h.percentage hbound hsmall hwritten
  have hnext := h.next
  have hreached := h.reached
  have htotal : g.status.totalSize = f.2 := congrArg Prod.snd h.firmware
  simp only [MupgradeConfig.multiples, htotal, mupgradeStatusReportInterval] at hnext hreached
  rw [hmultiples] at hless
  omega

/-- Behind the packet the record is in step again. -/
theorem InStep.counted (h : InStep f g next reached) (hbound : f.2 * 100 < 4294967296)
    (hsmall : packet.size * 100 ≤ f.2) (hwritten : g.status.writtenSize + packet.size ≤ f.2)
    {g' : MupgradeConfig} (hg' : Counted packet g g') :
    InStep f g' (next + if (g.counting packet).percentage = next then
      mupgradeStatusReportInterval else 0) (max reached g'.multiples) := by
  obtain ⟨hcounted, hpercentage, hmultiples, hstep, hmono⟩ :=
    h.percentage hbound hsmall hwritten
  have hnext := h.next
  have hreached := h.reached
  have htotal : g.status.totalSize = f.2 := congrArg Prod.snd h.firmware
  have hsame : g'.multiples = (g.counting packet).multiples := by
    rw [MupgradeConfig.multiples, hg'.writtenSize, hg'.totalSize]
    rfl
  simp only [MupgradeConfig.multiples, htotal, mupgradeStatusReportInterval] at hnext hreached
  refine ⟨?_, hg'.notStopped h.notStopped, ?_, ?_, ?_⟩
  · rw [MupgradeStatus.firmware, hg'.name, hg'.totalSize]
    exact h.firmware
  · rw [hg'.writtenSize, Nat.mod_eq_of_lt (by omega)]
    exact hwritten
  · rw [hsame, hmultiples]
    omega
  · rw [hsame, hmultiples, mupgradeStatusReportInterval]
    split <;> omega

/-- The answer to a request changes neither the sizes nor what is reached. -/
theorem InStep.exit (h : InStep f g next reached) (e : StatusEnv) {ret : MdfErr}
    (hret : ret ≠ .stop) (n : UpgradeNode) (calls : List NodeCall) : ∃ g',
    (statusExit e ret g n calls).1.gUpgradeConfig = some g' ∧ InStep f g' next reached := by
  refine ⟨_, rfl, h.firmware, ?_, h.written, h.reached, h.next⟩
  dsimp only
  rw [if_neg h.notStopped]
  exact hret

theorem fresh_inStep {g : MupgradeConfig} (hfirmware : g.status.firmware = f)
    (hstop : g.status.errorCode ≠ .stop) (hwritten : g.status.writtenSize = 0) :
    InStep f g mupgradeStatusReportInterval g.multiples := by
  have hnone : g.multiples = 0 := by simp [MupgradeConfig.multiples, hwritten]
  exact ⟨hfirmware, hstop, hwritten ▸ Nat.zero_le _, rfl, by rw [hnone, Nat.zero_add, Nat.one_mul]⟩

/-- A packet is counted, or the record stays as it is. -/
theorem data_next {n : UpgradeNode} {e : WriteEnv} (packet : MupgradePacket)
    (hrecord : n.record e.loaded = some g) (hsize : g.status.totalSize ≠ 0)
    (hstop : g.status.errorCode ≠ .stop) :
    ((nodeStep n (.data e packet)).gUpgradeConfig = some g ∧
      (nodeStep n (.data e packet)).sNextWrittenPercentage = n.sNextWrittenPercentage) ∨
    ∃ g', (nodeStep n (.data e packet)).gUpgradeConfig = some g' ∧ Counted packet g g' ∧
      (nodeStep n (.data e packet)).sNextWrittenPercentage = n.sNextWrittenPercentage +
        if (g.counting packet).percentage = n.sNextWrittenPercentage then
          mupgradeStatusReportInterval else 0 := by
  have hcounted : Counted packet g ((g.counting packet).switched e) :=
    ⟨rfl, rfl, rfl, fun _ => espErr_ne_stop _, rfl, rfl⟩
  rw [nodeStep, mupgradeHandle]
  refine mupgradeWrite_cases e packet n fun result hcases => ?_
  cases hcases with
  | notInit hrecord' => cases hrecord'.symm.trans hrecord
  | stopped g' hrecord' hstop' =>
    rw [Option.mem_unique hrecord' hrecord] at hstop'
    exact absurd hstop' hstop
  | refused g' hrecord' =>
    rw [Option.mem_unique hrecord' hrecord]
    exact .inl ⟨rfl, rfl⟩
  | fails g' hrecord' =>
    rw [Option.mem_unique hrecord' hrecord]
    exact .inl ⟨rfl, rfl⟩
  | divides g' hrecord' hgoes hwrite hsize' =>
    rw [Option.mem_unique hrecord' hrecord] at hsize'
    exact absurd hsize' hsize
  | counted g' hrecord' =>
    rw [Option.mem_unique hrecord' hrecord]
    exact .inr ⟨_, rfl, counting_counted g packet, rfl⟩
  | bootFails g' hrecord' =>
    rw [Option.mem_unique hrecord' hrecord]
    exact .inr ⟨_, rfl, hcounted, rfl⟩
  | completes g' hrecord' =>
    rw [Option.mem_unique hrecord' hrecord]
    exact .inr ⟨_, rfl, hcounted, rfl⟩

variable {n : UpgradeNode}

theorem status_steady (h : SessionSteady f (n, reached)) {e : StatusEnv} {status : MupgradeStatus}
    (hnode : ToNode (.status e status)) (hfirmware : status.firmware = f) :
    SessionSteady f (observe nodeEvent noteReached (n, reached) (.msg (.status e status))) := by
  have hnext := status_next e status n
  have hok : MdfErr.ok ≠ .stop := MdfErr.noConfusion
  simp only [observe, nodeEvent, noteReached, nodeStep, handle_status_node]
  right
  rw [hnext]
  rcases h with ⟨hnone, hinfo, hten⟩ | ⟨g, hconfig, hstep⟩
  · have hten' : n.sNextWrittenPercentage = mupgradeStatusReportInterval := hten
    rw [hten']
    by_cases hsame : (n.config e.loaded).status.firmware = status.firmware
    · rw [if_pos hsame, mupgradeStatus_same e hsame, reached_of_none hnone]
      rw [config_of_empty hnone hinfo] at hsame ⊢
      have hfresh : InStep f .zero _ _ :=
        fresh_inStep (hsame.trans hfirmware) MdfErr.noConfusion rfl
      exact hfresh.exit e hok n []
    · rw [if_neg hsame]
      obtain ⟨g, n', calls, ret, hstarts, hret, hstatus, -, -⟩ :=
        mupgradeStatus_starts e status hnode.1 hsame
      have hfresh : InStep f g _ _ := fresh_inStep
        ((congrArg MupgradeStatus.firmware hstatus).trans hfirmware)
        (by rw [hstatus]; exact hnode.2) (congrArg MupgradeStatus.writtenSize hstatus)
      obtain ⟨g', hconfig', hstep'⟩ := hfresh.exit e hret n' calls
      rw [hstarts, inUse_of_config hconfig']
      exact ⟨g', hconfig', hstep'.reached ▸ hstep'⟩
  · have hsame : (n.config e.loaded).status.firmware = status.firmware := by
      rw [config_of_some hconfig]
      exact hstep.firmware.trans hfirmware.symm
    rw [if_pos hsame, mupgradeStatus_same e hsame, reached_of_some hconfig,
      config_of_some hconfig]
    exact hstep.exit e hok n []

theorem data_steady (hpos : 0 < f.2) (hbound : f.2 * 100 < 4294967296)
    (h : SessionSteady f (n, reached)) {e : WriteEnv} (hsmall : packet.size * 100 ≤ f.2)
    (hwritten : ∀ g, n.record e.loaded = some g → g.status.writtenSize + packet.size ≤ f.2) :
    SessionSteady f (observe nodeEvent noteReached (n, reached) (.msg (.data e packet))) := by
  simp only [observe, nodeEvent, noteReached]
  rcases h with ⟨hnone, hinfo, hten⟩ | ⟨g, hconfig, hstep⟩
  · rw [nodeStep, mupgradeHandle, mupgradeWrite_none (record_of_empty hnone hinfo e.loaded)]
    exact .inl ⟨hnone, hinfo, hten⟩
  · have hrecord := record_of_config hconfig e.loaded
    right
    rw [reached_of_some hconfig]
    have hsize : g.status.totalSize ≠ 0 := by
      have htotal : g.status.totalSize = f.2 := congrArg Prod.snd hstep.firmware
      omega
    rcases data_next packet hrecord hsize hstep.notStopped with
      ⟨hkept, hnext⟩ | ⟨g', hnew, hc, hnext⟩
    · have hmax : max reached g.multiples = reached := max_eq_left hstep.reached.ge
      rw [inUse_of_config hkept, hnext, hmax]
      exact ⟨g, hkept, hstep⟩
    · rw [inUse_of_config hnew, hnext]
      exact ⟨g', hnew, hstep.counted hbound hsmall (hwritten g hrecord) hc⟩

theorem event_steady (hpos : 0 < f.2) (hbound : f.2 * 100 < 4294967296) (w : UpgradeNode × ℕ)
    (e : NodeEvent) (h : SessionSteady f w) (hsteady : Steady f w.1 e) :
    SessionSteady f (observe nodeEvent noteReached w e) := by
  cases e with
  | msg msg =>
    cases msg with
    | status e status => exact status_steady h hsteady.1 hsteady.2
    | data e packet => exact data_steady hpos hbound h hsteady.1 hsteady.2
  | reset => exact hsteady.elim
  | cut e packet => exact hsteady.elim

theorem event_due (hbound : f.2 * 100 < 4294967296) (w : UpgradeNode × ℕ) (e : NodeEvent)
    (h : SessionSteady f w) (hsteady : Steady f w.1 e) : NextDue w e := by
  obtain ⟨n, reached⟩ := w
  cases e with
  | msg msg =>
    cases msg with
    | status e status => trivial
    | data e packet =>
      intro g hrecord _ _ hless
      rcases h with ⟨hnone, hinfo, -⟩ | ⟨g', hconfig, hstep⟩
      · cases (record_of_empty hnone hinfo e.loaded).symm.trans hrecord
      · obtain rfl : g' = g :=
          Option.some.inj ((record_of_config hconfig e.loaded).symm.trans hrecord)
        dsimp only at hless
        rw [reached_of_some hconfig] at hless
        exact hstep.due hbound hsteady.1 (hsteady.2 _ hrecord) hless
  | reset => trivial
  | cut e packet => trivial

end Session

/-- The first firmware of a boot is reported as it should be, if it has at least a hundred
packets. -/
theorem first_session_due (f : Firmware) (hpos : 0 < f.2) (hbound : f.2 * 100 < 4294967296)
    (flash : ℕ → Flash) (es : List NodeEvent)
    (hes : Along nodeEvent (Steady f) (.boot none flash) es) :
    Along (observe nodeEvent noteReached) NextDue (.boot none flash, 0) es :=
  along_of_invariant_along (I := SessionSteady f) (event_steady hpos hbound) (event_due hbound)
    (.inl ⟨rfl, rfl, rfl⟩) ((along_observe noteReached (.boot none flash, 0) es).mpr hes)

/-- The first packet of two is the half of a firmware, and nobody hears of it. -/
theorem half_not_reported :
    ¬ Along (observe nodeEvent noteReached) ReportsReached (.boot none fun _ => fun _ => 0, 0)
      [.msg (.status freshStatusEnv { paddedRequest with errorCode := .ok }),
        .msg (.data allSucceed firstPacket)] := by
  rintro ⟨-, hdata, -⟩
  have hdue := (event_reports_iff _ _ ?_).mp hdata
  · exact absurd (hdue _ rfl (by decide) rfl (by decide)) (by decide)
  · exact event_reached _ _ fun _ hg => (by cases hg)

end EspMesh
