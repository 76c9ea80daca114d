import EspMesh.Model.UpgradeCalls
import EspMesh.Proof.NodeMessage
import EspMesh.Proof.OtaDownload

/-! # What an upgrade reports of a failed flash call

Two results are lost. `mupgrade_firmware_init` keeps that of `esp_ota_begin` and returns another
variable, which is still `MDF_OK`; `mupgrade_write` does the same with that of
`esp_ota_set_boot_partition`.
-/

namespace EspMesh
set_option autoImplicit false
open ByteMem Download

/-! ## At the root -/

theorem firmwareInit_reports (e : FirmwareInitEnv) (name : Bytes 32) (size : ℕ)
    (g : Option MupgradeConfig) :
    Reports (some (mupgradeFirmwareInit e name size g).2.2)
      (mupgradeFirmwareInit e name size g).2.1 ↔ ¬ BeginFails e size := by
  obtain ⟨running, update, updateSize, otaBegin, handle⟩ := e
  unfold Reports mupgradeFirmwareInit BeginFails
  dsimp only
  by_cases hsize : size = 0
  · simp [hsize]
  rw [if_neg hsize]
  cases running with
  | none => simp
  | some r =>
    cases update with
    | none => simp
    | some p =>
      dsimp only
      by_cases hfits : size ≠ otaSizeUnknown ∧ updateSize < size
      · have hnot : ¬ (size = otaSizeUnknown ∨ size ≤ updateSize) := by
          rintro (heq | hle)
          · exact hfits.1 heq
          · exact absurd hfits.2 (not_lt.mpr hle)
        rw [if_pos hfits]
        simp [hnot]
      · have hin : size = otaSizeUnknown ∨ size ≤ updateSize := by
          rw [not_and_or, not_not, not_lt] at hfits
          exact hfits
        rw [if_neg hfits]
        cases otaBegin <;> simp [hsize, hin, FlashCall.ret, espErr]

theorem downloadFinished_reports (e : FirmwareDownloadEnv) (totalSize : ℕ)
    (g : Option MupgradeConfig) :
    Reports (some (mupgradeFirmwareDownloadFinished e totalSize g).2.2)
      (mupgradeFirmwareDownloadFinished e totalSize g).2.1 := by
  intro hok call hcall
  cases g with
  | none => cases hcall
  | some g =>
    obtain ⟨hend, hcheck⟩ := (finished_ok_iff e totalSize g).mp (Option.some.inj hok)
    simp only [mupgradeFirmwareDownloadFinished, hend, hcheck, Option.isSome_none,
      Bool.false_eq_true, if_false, List.mem_cons, List.not_mem_nil, or_false] at hcall
    rcases hcall with rfl | rfl <;> rfl

theorem firmwareDownload_reports (e : FirmwareDownloadEnv) (size : ℕ)
    (g : Option MupgradeConfig) :
    Reports (some (mupgradeFirmwareDownload e size g).2.2)
      (mupgradeFirmwareDownload e size g).2.1 := by
  intro hok call hcall
  cases g with
  | none => cases hcall
  | some g =>
    by_cases hsize : size = 0
    · simp [mupgradeFirmwareDownload, hsize] at hcall
    obtain ⟨herror, hwrite, hfinish⟩ := (download_ok_iff e g hsize).mp (Option.some.inj hok)
    simp only [mupgradeFirmwareDownload, if_neg hsize, herror, ne_eq, not_true_eq_false, if_false,
      hwrite, Option.isSome_none, Bool.false_eq_true] at hcall
    split at hcall
    · rename_i hlast
      rcases List.mem_cons.mp hcall with rfl | hcall
      · rfl
      refine downloadFinished_reports e g.status.totalSize _ (congrArg some ?_) call hcall
      exact (finished_ok_iff e g.status.totalSize _).mpr (hfinish hlast)
    · obtain rfl := List.mem_singleton.mp hcall
      rfl

/-! ## On a device -/

theorem reportCalls_flashCall (e : WriteEnv) (n : UpgradeNode) (g : MupgradeConfig) :
    (n.reportCalls g).filterMap (NodeCall.flashCall e) = [] := by
  unfold UpgradeNode.reportCalls
  split <;> rfl

theorem write_reports (e : WriteEnv) (packet : MupgradePacket) (n : UpgradeNode) :
    Reports (mupgradeWrite e packet n).2.2 (writeCalls e packet n) ↔
      ¬ BootSwitchFails e packet n := by
  have hrecordOnly : ∀ {g : MupgradeConfig}, n.record e.loaded = some g →
      (BootSwitchFails e packet n ↔
        g.Completes packet ∧ e.partitionWrite = none ∧ e.setBoot.isSome = true) := by
    intro g hrecord
    constructor
    · rintro ⟨g', hrecord', hfails⟩
      rwa [Option.some.inj (hrecord.symm.trans hrecord')]
    · exact fun hfails => ⟨g, hrecord, hfails⟩
  unfold writeCalls
  refine mupgradeWrite_cases e packet n fun result hcases => ?_
  cases hcases with
  | notInit hrecord =>
    have hnone : ¬ BootSwitchFails e packet n := by
      rintro ⟨g, hrecord', -⟩
      cases hrecord.symm.trans hrecord'
    simp [Reports, hnone]
  | stopped g hrecord hstop =>
    rw [hrecordOnly hrecord]
    have hrefuses : g.refuses packet := .inl hstop
    simp [Reports, NodeCall.flashCall, MupgradeConfig.Completes, hrefuses]
  | refused g hrecord hrefuses hstop ret =>
    rw [hrecordOnly hrecord]
    simp [Reports, MupgradeConfig.Completes, hrefuses]
  | fails g hrecord hgoes hwrite =>
    rw [hrecordOnly hrecord]
    have hfailed : e.partitionWrite ≠ none := Option.isSome_iff_ne_none.mp hwrite
    simp [Reports, hfailed]
  | divides g hrecord hgoes hwrite hsize =>
    rw [hrecordOnly hrecord]
    simp [Reports, MupgradeConfig.Completes, hsize]
  | counted g hrecord hgoes hwrite hopen =>
    rw [hrecordOnly hrecord]
    simp [Reports, MupgradeConfig.Completes, hopen, reportCalls_flashCall,
      MupgradeConfig.writeCall, NodeCall.flashCall, hwrite, FlashCall.ret, espErr]
  | bootFails g hrecord hgoes hwrite hdone hboot hsize =>
    have hfails := (hrecordOnly hrecord).mpr ⟨⟨hgoes, hsize, hdone⟩, hwrite, hboot⟩
    refine iff_of_false (fun hreports => ?_) (not_not_intro hfails)
    have hret : espErr e.setBoot = .ok :=
      hreports rfl (.setBootPartition (espErr e.setBoot)) (List.mem_filterMap.mpr
        ⟨.setBootPartition e.update (espErr e.setBoot), by simp, rfl⟩)
    rw [(espErr_ok _).mp hret] at hboot
    cases hboot
  | completes g hrecord hgoes hwrite hdone hboot =>
    rw [hrecordOnly hrecord]
    simp [Reports, hboot, List.filterMap_append, reportCalls_flashCall, MupgradeConfig.writeCall,
      NodeCall.flashCall, hwrite, FlashCall.ret, espErr]

/-- **Failed flash calls.** `mupgrade_firmware_download` and `mupgrade_firmware_download_finished`
return `MDF_OK` only if all of their flash calls have succeeded. `mupgrade_firmware_init` does so
exactly when `esp_ota_begin` does not fail, and `mupgrade_write` exactly when a firmware that has
become complete can be made the one to boot. -/
theorem failed_flash_calls_reported (init : FirmwareInitEnv) (download : FirmwareDownloadEnv)
    (write : WriteEnv) (name : Bytes 32) (size : ℕ) (g : Option MupgradeConfig)
    (packet : MupgradePacket) (n : UpgradeNode) :
    (Reports (some (mupgradeFirmwareInit init name size g).2.2)
        (mupgradeFirmwareInit init name size g).2.1 ↔ ¬ BeginFails init size) ∧
    Reports (some (mupgradeFirmwareDownload download size g).2.2)
      (mupgradeFirmwareDownload download size g).2.1 ∧
    Reports (some (mupgradeFirmwareDownloadFinished download size g).2.2)
      (mupgradeFirmwareDownloadFinished download size g).2.1 ∧
    (Reports (mupgradeWrite write packet n).2.2 (writeCalls write packet n) ↔
      ¬ BootSwitchFails write packet n) :=
  ⟨firmwareInit_reports init name size g, firmwareDownload_reports download size g,
    downloadFinished_reports download size g, write_reports write packet n⟩

/-- `esp_ota_begin` fails, and `mupgrade_firmware_init` returns `MDF_OK`. -/
theorem failed_begin_is_ok :
    ¬ Reports
      (some (mupgradeFirmwareInit ⟨some 0, some 1, 2048, some 1, 0⟩ (Bytes.const 32 1) 2048
        none).2.2)
      (mupgradeFirmwareInit ⟨some 0, some 1, 2048, some 1, 0⟩ (Bytes.const 32 1) 2048
        none).2.1 := by
  intro h
  have hret : MdfErr.other 1 = .ok := h rfl _ (List.mem_singleton_self _)
  cases hret

end EspMesh
