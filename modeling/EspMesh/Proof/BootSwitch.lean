import EspMesh.Proof.ProgressReport

/-! # When 100 percent is announced

`mupgrade_write` posts the event when the percentage comes to 100, and makes the partition the one
to boot only then; `mupgrade_status` posts it whenever the sizes are equal. Neither looks at what
`esp_ota_set_boot_partition` returned.
-/

namespace EspMesh
set_option autoImplicit false
open ByteMem NorFlash StepRuns

/-! ## The order of the calls -/

namespace NodeCall

def announces : NodeCall → Bool
  | .event (.status percentage) => decide (percentage = 100)
  | _ => false

def switchesBoot : NodeCall → Bool
  | .setBootPartition _ ret => decide (ret = .ok)
  | _ => false

end NodeCall

/-- Each 100 percent is announced behind a switch; `booted` is whether there was one before. -/
def AnnouncesBooted : Bool → List NodeCall → Prop
  | _, [] => True
  | booted, call :: calls =>
    (call.announces = true → booted = true) ∧ AnnouncesBooted (booted || call.switchesBoot) calls

/-- The firmwares whose partition has been made the one to boot. A request for a firmware that is
not on record starts it anew. -/
def bootedInProgress (booted : Firmware → Bool) (n : UpgradeNode) (e : NodeEvent) : Bool :=
  match e with
  | .msg (.status e status) =>
    booted status.firmware && decide ((n.config e.loaded).status.firmware = status.firmware)
  | e => booted (firmwareInProgress n e)

def noteBoot (booted : Firmware → Bool) (n : UpgradeNode) (e : NodeEvent) : Firmware → Bool :=
  Function.update booted (firmwareInProgress n e)
    (bootedInProgress booted n e || (eventCalls n e).any NodeCall.switchesBoot)

/-- 100 percent is announced only for a firmware that will boot. -/
def AnnouncesInTime (w : UpgradeNode × (Firmware → Bool)) (e : NodeEvent) : Prop :=
  AnnouncesBooted (bootedInProgress w.2 w.1 e) (eventCalls w.1 e)

/-- The packet is written when 100 percent is the next one to be reported, and comes to it. -/
def ReportsAll (n : UpgradeNode) (e : WriteEnv) (packet : MupgradePacket) : Prop :=
  ∃ g, n.record e.loaded = some g ∧ ¬ g.refuses packet ∧ e.partitionWrite = none ∧
    n.sNextWrittenPercentage = 100 ∧ (g.counting packet).percentage = 100

/-- The partition of the firmware in progress has been made the one to boot, or: a packet does not
come to 100 percent when these are the next to be reported; a request does not meet a record whose
sizes are equal, and a firmware that is not on record is not empty, unless the root has it and can
make its partition the one to boot. -/
def SwitchedBefore (w : UpgradeNode × (Firmware → Bool)) (e : NodeEvent) : Prop :=
  bootedInProgress w.2 w.1 e = true ∨
    match e with
    | .msg (.status e status) =>
      if (w.1.config e.loaded).status.firmware = status.firmware then
        (w.1.config e.loaded).status.writtenSize ≠ status.totalSize
      else status.totalSize ≠ 0 ∨ e.isRoot = true ∧ e.setBoot = none
    | .msg (.data e packet) | .cut e packet => ¬ ReportsAll w.1 e packet
    | .reset => True

section Calls
variable {booted : Bool} {n : UpgradeNode} {e : WriteEnv} {packet : MupgradePacket}
  {g : MupgradeConfig}

theorem announcesBooted_append (booted : Bool) (calls more : List NodeCall) :
    AnnouncesBooted booted (calls ++ more) ↔ AnnouncesBooted booted calls ∧
      AnnouncesBooted (booted || calls.any NodeCall.switchesBoot) more := by
  induction calls generalizing booted with
  | nil => simp [AnnouncesBooted]
  | cons call calls ih =>
    rw [List.cons_append, AnnouncesBooted, AnnouncesBooted, ih, and_assoc, List.any_cons,
      Bool.or_assoc]

/-- Calls among which there is no announcement. -/
theorem announcesBooted_quiet {calls : List NodeCall}
    (h : ∀ call ∈ calls, call.announces = false) (booted : Bool) :
    AnnouncesBooted booted calls := by
  induction calls generalizing booted with
  | nil => trivial
  | cons call calls ih =>
    obtain ⟨hcall, hcalls⟩ := List.forall_mem_cons.mp h
    refine ⟨fun hannounces => ?_, ih hcalls _⟩
    rw [hcall] at hannounces
    cases hannounces

theorem reportCalls_booted (booted : Bool) (n : UpgradeNode) (g : MupgradeConfig) :
    AnnouncesBooted booted (n.reportCalls g) ↔
      (n.sNextWrittenPercentage = 100 ∧ g.percentage = 100 → booted = true) := by
  by_cases hdue : g.percentage = n.sNextWrittenPercentage
  · rw [reportCalls_due hdue, ← hdue, and_self]
    simp [AnnouncesBooted, NodeCall.announces, NodeCall.switchesBoot]
  · rw [reportCalls_other hdue]
    refine iff_of_true trivial fun h => absurd (h.2.trans h.1.symm) hdue

/-- A packet that is counted announces what it reports. -/
theorem counted_booted (booted : Bool) {rest : List NodeCall}
    (hrest : ∀ call ∈ rest, call.announces = false) :
    AnnouncesBooted booted ([g.writeCall packet] ++ n.reportCalls (g.counting packet) ++ rest) ↔
      (n.sNextWrittenPercentage = 100 ∧ (g.counting packet).percentage = 100 →
        booted = true) := by
  rw [announcesBooted_append, announcesBooted_append,
    and_iff_left (announcesBooted_quiet hrest _), reportCalls_booted]
  simp [AnnouncesBooted, NodeCall.announces, NodeCall.switchesBoot, MupgradeConfig.writeCall]

theorem reportsAll_iff (hrecord : n.record e.loaded = some g) :
    ReportsAll n e packet ↔ ¬ g.refuses packet ∧ e.partitionWrite = none ∧
      n.sNextWrittenPercentage = 100 ∧ (g.counting packet).percentage = 100 := by
  constructor
  · rintro ⟨g', hrecord', h⟩
    rwa [Option.some.inj (hrecord.symm.trans hrecord')]
  · exact fun h => ⟨g, hrecord, h⟩

/-- An empty firmware has no percentage. -/
theorem reportsAll_size (hrecord : n.record e.loaded = some g) (hsize : g.status.totalSize = 0) :
    ¬ ReportsAll n e packet := by
  rw [reportsAll_iff hrecord]
  rintro ⟨-, -, -, hpercentage⟩
  simp [MupgradeConfig.percentage, MupgradeConfig.counting, hsize] at hpercentage

theorem counted_switched (hrecord : n.record e.loaded = some g) (hgoes : ¬ g.refuses packet)
    (hwrite : e.partitionWrite = none) (booted : Bool) (rest : List NodeCall)
    (hrest : ∀ call ∈ rest, call.announces = false) :
    AnnouncesBooted booted ([g.writeCall packet] ++ n.reportCalls (g.counting packet) ++ rest) ↔
      booted = true ∨ ¬ ReportsAll n e packet := by
  rw [counted_booted booted hrest, reportsAll_iff hrecord, and_iff_right hgoes,
    and_iff_right hwrite, or_comm, ← imp_iff_not_or]

/-- A packet that is not counted announces nothing. -/
theorem uncounted_switched {calls : List NodeCall}
    (hcalls : ∀ call ∈ calls, call.announces = false) (booted : Bool)
    (hnot : ¬ ReportsAll n e packet) :
    AnnouncesBooted booted calls ↔ booted = true ∨ ¬ ReportsAll n e packet :=
  iff_of_true (announcesBooted_quiet hcalls booted) (.inr hnot)

theorem write_booted (booted : Bool) (n : UpgradeNode) (e : WriteEnv) (packet : MupgradePacket) :
    AnnouncesBooted booted (mupgradeWrite e packet n).2.1 ↔
      booted = true ∨ ¬ ReportsAll n e packet := by
  refine mupgradeWrite_cases e packet n fun result hcases => ?_
  cases hcases with
  | notInit hrecord =>
    refine uncounted_switched (fun _ h => (by cases h)) booted ?_
    rintro ⟨g, hrecord', -⟩
    cases hrecord.symm.trans hrecord'
  | stopped g hrecord hstop =>
    refine uncounted_switched (by simp [NodeCall.announces]) booted ?_
    rw [reportsAll_iff hrecord]
    exact fun h => h.1 (.inl hstop)
  | refused g hrecord hrefuses hstop ret =>
    refine uncounted_switched (fun _ h => (by cases h)) booted ?_
    rw [reportsAll_iff hrecord]
    exact fun h => h.1 hrefuses
  | fails g hrecord hgoes hwrite =>
    refine uncounted_switched (by simp [NodeCall.announces, MupgradeConfig.writeCall]) booted ?_
    rw [reportsAll_iff hrecord]
    rintro ⟨-, hok, -⟩
    rw [hok] at hwrite
    cases hwrite
  | divides g hrecord hgoes hwrite hsize =>
    exact uncounted_switched (by simp [NodeCall.announces, MupgradeConfig.writeCall]) booted
      (reportsAll_size hrecord hsize)
  | counted g hrecord hgoes hwrite hopen =>
    have hiff := counted_switched hrecord hgoes hwrite booted [] fun _ h => (by cases h)
    rwa [List.append_nil] at hiff
  | bootFails g hrecord hgoes hwrite hdone hboot =>
    exact counted_switched hrecord hgoes hwrite booted _ (by simp [NodeCall.announces])
  | completes g hrecord hgoes hwrite hdone hboot =>
    dsimp only
    rw [List.append_assoc]
    exact counted_switched hrecord hgoes hwrite booted _ (by simp [NodeCall.announces])

/-- Up to the calls that end an upgrade. -/
theorem cut_booted (booted : Bool) (n : UpgradeNode) (e : WriteEnv) (packet : MupgradePacket) :
    AnnouncesBooted booted ((mupgradeWrite e packet n).2.1.takeWhile NodeCall.beforeEnd) ↔
      booted = true ∨ ¬ ReportsAll n e packet := by
  have hall := write_booted booted n e packet
  have hfront := counted_beforeEnd packet n
  revert hall
  refine mupgradeWrite_cases e packet n fun result hcases hall => ?_
  cases hcases with
  | notInit => exact hall
  | stopped g hrecord hstop =>
    refine uncounted_switched (fun _ h => (by cases h)) booted ?_
    rw [reportsAll_iff hrecord]
    exact fun h => h.1 (.inl hstop)
  | refused => exact hall
  | fails => exact hall
  | divides => exact hall
  | counted g =>
    dsimp only at hall ⊢
    rwa [List.takeWhile_eq_self_iff.mpr (hfront g _)]
  | bootFails g hrecord hgoes hwrite =>
    dsimp only
    rw [List.takeWhile_append_of_pos (hfront g _)]
    exact counted_switched hrecord hgoes hwrite booted _ fun _ h => (by cases h)
  | completes g hrecord hgoes hwrite =>
    dsimp only
    rw [List.append_assoc, List.takeWhile_append_of_pos (hfront g _)]
    exact counted_switched hrecord hgoes hwrite booted _ fun _ h => (by cases h)

/-! ## A request -/

/-- The answer announces 100 percent when the sizes are equal. -/
theorem exit_booted (booted : Bool) (e : StatusEnv) (ret : MdfErr) (g : MupgradeConfig)
    (n : UpgradeNode) {calls : List NodeCall} (hcalls : ∀ call ∈ calls, call.announces = false) :
    AnnouncesBooted booted (statusExit e ret g n calls).2.1 ↔
      (g.status.writtenSize = g.status.totalSize →
        (booted || calls.any NodeCall.switchesBoot) = true) := by
  unfold statusExit
  dsimp only
  rw [List.append_assoc, announcesBooted_append, and_iff_right (announcesBooted_quiet hcalls _)]
  by_cases hequal : g.status.writtenSize = g.status.totalSize
  · simp [hequal, AnnouncesBooted, NodeCall.announces]
  · rw [if_neg hequal, ite_self]
    simp [hequal, AnnouncesBooted, NodeCall.announces]

/-- Where a firmware begins nothing has been written. -/
theorem fresh_booted (e : StatusEnv) (ret : MdfErr) (g : MupgradeConfig) (n : UpgradeNode)
    (hwritten : g.status.writtenSize = 0) {calls : List NodeCall}
    (hcalls : ∀ call ∈ calls, call.announces = false ∧ call.switchesBoot = false) :
    AnnouncesBooted false (statusExit e ret g n calls).2.1 ↔ g.status.totalSize ≠ 0 := by
  have hany : calls.any NodeCall.switchesBoot = false :=
    List.any_eq_false.mpr fun call hcall => by simp [(hcalls call hcall).2]
  rw [exit_booted false e ret g n fun call hcall => (hcalls call hcall).1, hwritten, hany]
  simp [eq_comm]

theorem begin_booted (e : StatusEnv) (update : ℕ) (status : MupgradeStatus) (n : UpgradeNode) :
    AnnouncesBooted false (statusBegin e update status.fresh n).2.1 ↔ status.totalSize ≠ 0 := by
  unfold statusBegin
  dsimp only
  split
  · exact fresh_booted e _ _ _ rfl (by simp [NodeCall.announces, NodeCall.switchesBoot])
  · split
    · exact fresh_booted e _ _ _ rfl (by simp [NodeCall.announces, NodeCall.switchesBoot])
    · exact fresh_booted e _ _ _ rfl (by simp [NodeCall.announces, NodeCall.switchesBoot])

theorem root_booted (e : StatusEnv) (status : MupgradeStatus) (n : UpgradeNode) :
    AnnouncesBooted false (statusRoot e status.fresh n).2.1 ↔
      status.totalSize ≠ 0 ∨ e.setBoot = none := by
  unfold statusRoot
  dsimp only
  cases hboot : e.setBoot with
  | some code =>
    rw [Option.isSome_some, if_pos rfl, or_iff_left (by simp)]
    exact fresh_booted e _ _ _ rfl (by simp [NodeCall.announces, NodeCall.switchesBoot, espErr])
  | none =>
    rw [Option.isSome_none, if_neg Bool.false_ne_true,
      exit_booted false e _ _ _ (by simp [NodeCall.announces])]
    simp [NodeCall.switchesBoot, espErr]

theorem status_booted (booted : Firmware → Bool) (n : UpgradeNode) (e : StatusEnv)
    (status : MupgradeStatus) : AnnouncesInTime (n, booted) (.msg (.status e status)) ↔
      SwitchedBefore (n, booted) (.msg (.status e status)) := by
  simp only [AnnouncesInTime, SwitchedBefore, bootedInProgress, eventCalls, handle_status_calls]
  by_cases hsame : (n.config e.loaded).status.firmware = status.firmware
  · have htotal : (n.config e.loaded).status.totalSize = status.totalSize :=
      congrArg Prod.snd hsame
    rw [decide_eq_true hsame, Bool.and_true, if_pos hsame, mupgradeStatus_same e hsame,
      exit_booted _ e _ _ _ (fun _ h => (by cases h)), List.any_nil, Bool.or_false, htotal,
      or_comm, imp_iff_not_or]
  · rw [decide_eq_false hsame, Bool.and_false, if_neg hsame, or_iff_right Bool.false_ne_true]
    refine mupgradeStatus_cases e status n fun result hcases => ?_
    cases hcases with
    | same h => exact absurd h hsame
    | root _ hroot => rw [root_booted, hroot, and_iff_right rfl]
    | noPartition _ hroot hnone =>
      rw [hroot, or_iff_left (by simp)]
      exact fresh_booted e _ _ _ rfl fun _ h => (by cases h)
    | begins p _ hroot hrunning hupdate =>
      rw [hroot, or_iff_left (by simp)]
      exact begin_booted e p status _

end Calls

theorem event_booted (w : UpgradeNode × (Firmware → Bool)) (e : NodeEvent) :
    AnnouncesInTime w e ↔ SwitchedBefore w e := by
  obtain ⟨n, booted⟩ := w
  cases e with
  | msg msg =>
    cases msg with
    | status e status => exact status_booted booted n e status
    | data e packet => exact write_booted _ n e packet
  | reset => exact iff_of_true trivial (.inr trivial)
  | cut e packet => exact cut_booted _ n e packet

/-- **The announcement of 100 percent.** In every run of a device it is made only for a firmware
whose partition has been made the one to boot, exactly when until then no packet comes to 100
percent as the next to be reported, no request meets a record whose sizes are equal, and none
begins with an empty firmware. -/
theorem hundred_percent_announced_in_time (n : UpgradeNode) (booted : Firmware → Bool)
    (es : List NodeEvent) :
    Along (observe nodeEvent noteBoot) AnnouncesInTime (n, booted) es ↔
      Along (observe nodeEvent noteBoot) SwitchedBefore (n, booted) es :=
  along_congr (I := fun _ => True) (B := fun _ _ => True) (fun _ _ _ _ => trivial)
    (fun w e _ _ => event_booted w e) trivial (along_of_forall fun _ _ _ => trivial)

/-- Both packets of a firmware, then a request for it; the partition cannot be made the one to
boot. -/
def switchFails : List NodeEvent :=
  [.msg (.status freshStatusEnv { paddedRequest with errorCode := .ok }),
    .msg (.data allSucceed firstPacket),
    .msg (.data { allSucceed with setBoot := some 1 } ⟨1, 1024, fun _ => 0xff⟩),
    .msg (.status freshStatusEnv { paddedRequest with errorCode := .ok })]

/-- The request is answered with 100 percent. -/
theorem announced_without_switch :
    ¬ Along (observe nodeEvent noteBoot) AnnouncesInTime
      (.boot none fun _ => fun _ => 0, fun _ => false) switchFails := by
  rintro ⟨-, -, -, hagain, -⟩
  rcases (event_booted _ _).mp hagain with hbooted | hopen
  · exact absurd hbooted (by decide)
  · exact absurd hopen (by decide)

/-- A firmware that comes in order is announced in front of the switch. -/
theorem steady_announced_early {f : Firmware} {n : UpgradeNode} {reached : ℕ}
    {booted : Firmware → Bool} {e : WriteEnv} {packet : MupgradePacket} {g : MupgradeConfig}
    (hpos : 0 < f.2) (hbound : f.2 * 100 < 4294967296)
    (hconfig : n.gUpgradeConfig = some g) (h : InStep f g n.sNextWrittenPercentage reached)
    (hsteady : Steady f n (.msg (.data e packet))) (hgoes : ¬ g.refuses packet)
    (hwrite : e.partitionWrite = none)
    (hdone : (g.counting packet).status.writtenSize = f.2) (hopen : g.status.writtenSize < f.2)
    (hbooted : booted f = false) :
    ¬ AnnouncesInTime (n, booted) (.msg (.data e packet)) := by
  obtain ⟨hsmall, hsize⟩ := hsteady
  have hrecord := record_of_config hconfig e.loaded
  obtain ⟨hcounted, hpercentage, hmultiples, hstep, -⟩ :=
    h.percentage hbound hsmall (hsize g hrecord)
  rw [← hcounted, hdone, Nat.mul_div_cancel_left _ hpos] at hpercentage
  have hbefore : g.status.writtenSize * 100 / f.2 < 100 := by
    rw [Nat.div_lt_iff_lt_mul hpos]
    omega
  have htotal : g.status.totalSize = f.2 := congrArg Prod.snd h.firmware
  have hnext := h.next
  simp only [MupgradeConfig.multiples, htotal, mupgradeStatusReportInterval] at hnext
  have hinProgress : bootedInProgress booted n (.msg (.data e packet)) = false := by
    rw [bootedInProgress, firmwareInProgress, config_of_some hconfig, h.firmware]
    · exact hbooted
    · intro _ _ hdata
      cases hdata
  rw [event_booted, SwitchedBefore, not_or, not_not]
  have hdue : n.sNextWrittenPercentage = 100 := by omega
  exact ⟨by simp [hinProgress], g, hrecord, hgoes, hwrite, hdue, hpercentage⟩

end EspMesh
