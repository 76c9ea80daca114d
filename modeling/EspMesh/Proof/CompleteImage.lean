import EspMesh.Library.StepRuns
import EspMesh.Model.UpgradeCalls

/-! # Only a complete image is distributed

`error_code` is `MDF_OK` while a firmware is loaded, and `MDF_ERR_MUPGRADE_FIRMWARE_FINISH` when it
is complete. Every failure leaves a code of its own there, which neither a download nor a send
gets past.
-/

namespace EspMesh
set_option autoImplicit false
open ByteMem StepRuns

/-- What the root's configuration says of the flash calls so far. -/
structure ImageNoted (w : Option MupgradeConfig × List FlashCall) : Prop where
  loading : ∀ g, w.1 = some g → g.status.errorCode = .ok →
    Loading g.status.totalSize g.status.writtenSize w.2
  finished : ∀ g, w.1 = some g →
    (g.status.errorCode = .firmwareFinish ↔ CompleteImage w.2)

theorem boot_image : ImageNoted (none, []) :=
  ⟨fun _ hg => (by cases hg), fun _ hg => (by cases hg)⟩

section Steps
variable {g : MupgradeConfig} {made : List FlashCall}

/-- The latest call has failed, and its code is kept. -/
theorem ImageNoted.failed {code : ℕ} {call : FlashCall} (herror : g.status.errorCode = .other code)
    (hcall : call ≠ .firmwareCheck .ok) : ImageNoted (some g, call :: made) := by
  refine ⟨fun g' hg hok => ?_, fun g' hg => iff_of_false ?_ ?_⟩
  · cases hg
    cases herror.symm.trans hok
  · cases hg
    rw [herror]
    exact MdfErr.noConfusion
  · rintro ⟨-⟩
    exact hcall rfl

/-- The latest call is a begin or a write, and has succeeded. -/
theorem ImageNoted.of_loading {call : FlashCall} (herror : g.status.errorCode = .ok)
    (hcall : call ≠ .firmwareCheck .ok)
    (h : Loading g.status.totalSize g.status.writtenSize (call :: made)) :
    ImageNoted (some g, call :: made) := by
  refine ⟨fun g' hg _ => ?_, fun g' hg => iff_of_false ?_ ?_⟩
  · cases hg
    exact h
  · cases hg
    rw [herror]
    exact MdfErr.noConfusion
  · rintro ⟨-⟩
    exact hcall rfl

theorem ImageNoted.of_complete (herror : g.status.errorCode = .firmwareFinish)
    (h : CompleteImage made) : ImageNoted (some g, made) := by
  refine ⟨fun g' hg hok => ?_, fun g' hg => iff_of_true ?_ h⟩
  · cases hg
    cases herror.symm.trans hok
  · cases hg
    exact herror

/-! ## `mupgrade_firmware_init` -/

theorem init_image {c : Option MupgradeConfig} (h : ImageNoted (c, made)) (e : FirmwareInitEnv)
    (name : Bytes 32) (size : ℕ) :
    ImageNoted (observe rootCall noteFlash (c, made) (.init e name size)) := by
  obtain ⟨running, update, updateSize, otaBegin, handle⟩ := e
  simp only [observe, rootCall, noteFlash, RootCall.flashCalls, mupgradeFirmwareInit]
  by_cases hsize : size = 0
  · rw [if_pos hsize]
    exact h
  rw [if_neg hsize]
  cases running with
  | none => exact h
  | some r =>
    cases update with
    | none => exact h
    | some p =>
      dsimp only
      by_cases hfits : size ≠ otaSizeUnknown ∧ updateSize < size
      · rw [if_pos hfits]
        exact h
      · rw [if_neg hfits]
        cases otaBegin with
        | some code => exact .failed rfl FlashCall.noConfusion
        | none => exact .of_loading rfl FlashCall.noConfusion (.begins size made)

/-! ## `mupgrade_firmware_download` -/

/-- Behind the write that completes the firmware. -/
theorem finished_image {size : ℕ} (h : Loading size size made) (e : FirmwareDownloadEnv)
    (g : MupgradeConfig) :
    ImageNoted ((mupgradeFirmwareDownloadFinished e size (some g)).1,
      (mupgradeFirmwareDownloadFinished e size (some g)).2.1.reverse ++ made) := by
  obtain ⟨base, otaWrite, otaEnd, check⟩ := e
  unfold mupgradeFirmwareDownloadFinished
  cases otaEnd with
  | some code => exact .failed rfl FlashCall.noConfusion
  | none =>
    cases check with
    | some code => exact .failed rfl (by simp [espErr])
    | none => exact .of_complete rfl (.checked h)

theorem download_image (h : ImageNoted (some g, made)) {e : FirmwareDownloadEnv} {size : ℕ}
    (hfit : WritesFit (some g, made) (.download e size)) :
    ImageNoted (observe rootCall noteFlash (some g, made) (.download e size)) := by
  obtain ⟨base, otaWrite, otaEnd, check⟩ := e
  simp only [observe, rootCall, noteFlash, RootCall.flashCalls, mupgradeFirmwareDownload]
  simp only [WritesFit, mupgradeFirmwareDownload] at hfit
  by_cases hsize : size = 0
  · rw [if_pos hsize]
    exact h
  rw [if_neg hsize] at hfit ⊢
  by_cases herror : g.status.errorCode ≠ .ok
  · rw [if_pos herror]
    exact h
  rw [if_neg herror] at hfit ⊢
  cases otaWrite with
  | some code => exact .failed rfl FlashCall.noConfusion
  | none =>
    have hloading := h.loading g rfl (not_not.mp herror)
    dsimp only [Option.isSome_none] at hfit ⊢
    rw [if_neg Bool.false_ne_true] at hfit ⊢
    have hbound := hfit _ _ hloading (by split <;> exact List.mem_cons_self ..)
    have hwrite := hloading.write size
    rw [← Nat.mod_eq_of_lt hbound] at hwrite
    by_cases hlast : (g.status.writtenSize + size) % 4294967296 = g.status.totalSize
    · rw [if_pos hlast, List.reverse_cons, List.append_assoc]
      rw [hlast] at hwrite
      exact finished_image hwrite _ _
    · rw [if_neg hlast]
      exact .of_loading (not_not.mp herror) FlashCall.noConfusion hwrite

/-! ## Every call -/

theorem sending_status (c : SendCall) (g : MupgradeConfig) :
    (g.sending c).status.errorCode = g.status.errorCode := by
  unfold MupgradeConfig.sending
  split <;> rfl

theorem sendPasses_finished {c : SendCall} (h : sendPasses c (some g) = true) :
    g.status.errorCode = .firmwareFinish := by
  simp only [sendPasses, SendCall.accepted, SendCall.over, Bool.and_eq_true,
    decide_eq_true_eq] at h
  exact h.2

/-- A send that changes the written size has got past its checks. -/
theorem sending_unfinished {c : SendCall} (h : g.status.errorCode ≠ .firmwareFinish) :
    g.sending c = g := by
  have hnot : ¬ (c.over g).accepted = true := fun haccepted =>
    h (sendPasses_finished (c := c) haccepted)
  simp [MupgradeConfig.sending, hnot]

theorem send_image (h : ImageNoted (some g, made)) (c : SendCall) :
    ImageNoted (some (g.sending c), made) := by
  by_cases hfinish : g.status.errorCode = .firmwareFinish
  · have hcomplete := (h.finished g rfl).mp hfinish
    exact .of_complete ((sending_status c g).trans hfinish) hcomplete
  · rw [sending_unfinished hfinish]
    exact h

theorem call_image (w : Option MupgradeConfig × List FlashCall) (call : RootCall)
    (h : ImageNoted w) (hfit : WritesFit w call) :
    ImageNoted (observe rootCall noteFlash w call) := by
  obtain ⟨config, made⟩ := w
  cases call with
  | init e name size => exact init_image h e name size
  | download e size =>
    cases config with
    | none => exact h
    | some g => exact download_image h hfit
  | send c =>
    cases config with
    | none => exact h
    | some g => exact send_image h c

/-- Nothing is written behind a complete image. -/
theorem download_finished {e : FirmwareDownloadEnv} {size : ℕ}
    (h : g.status.errorCode = .firmwareFinish) :
    (mupgradeFirmwareDownload e size (some g)).2.2 ≠ .ok ∧
      (mupgradeFirmwareDownload e size (some g)).2.1 = [] := by
  unfold mupgradeFirmwareDownload
  by_cases hsize : size = 0
  · simp [hsize]
  · simp [hsize, h]

theorem call_sends (w : Option MupgradeConfig × List FlashCall) (call : RootCall)
    (h : ImageNoted w) : SendsComplete w call := by
  obtain ⟨config, made⟩ := w
  cases call with
  | init e name size => trivial
  | download e size =>
    intro hcomplete
    cases config with
    | none =>
      refine ⟨?_, rfl⟩
      rw [mupgradeFirmwareDownload]
      dsimp only
      split <;> exact MdfErr.noConfusion
    | some g => exact download_finished ((h.finished g rfl).mpr hcomplete)
  | send c =>
    intro hpasses
    cases config with
    | none => cases hpasses
    | some g => exact (h.finished g rfl).mp (sendPasses_finished hpasses)

end Steps

/-- **Complete images.** However inits, downloads and sends follow each other and their flash calls
end, a send gets past its checks only behind an `esp_ota_begin`, writes of all of its bytes,
`esp_ota_end` and `mupgrade_firmware_check` that have succeeded, and no download is accepted from
there until the next init. -/
theorem only_complete_image_sent (calls : List RootCall)
    (hfit : Along (observe rootCall noteFlash) WritesFit (none, []) calls) :
    Along (observe rootCall noteFlash) SendsComplete (none, []) calls :=
  along_of_invariant_along call_image (fun w call h _ => call_sends w call h) boot_image hfit

/-! ## A download that is begun again -/

def oneNode : SendCall :=
  ⟨[macOf 1], false, false, false, 1, [macOf 1], true, macOf 2, false, 0, fun _ => 0, 0⟩

def initOf (size : ℕ) : RootCall := .init ⟨some 0, some 1, 4096, none, 0⟩ (Bytes.const 32 1) size

def chunkOf (size : ℕ) (otaWrite : Option ℕ) : RootCall := .download ⟨0, otaWrite, none, none⟩ size

/-- The second write fails, the firmware is loaded again as a whole, and a send is tried at each
stage. -/
def loadedAgain : List RootCall :=
  [initOf 2500, chunkOf 1024 none, .send oneNode, chunkOf 1024 (some 5), .send oneNode,
    initOf 2500, chunkOf 1024 none, chunkOf 1024 none, chunkOf 452 none, .send oneNode,
    chunkOf 1 none]

theorem loadedAgain_fits : Along (observe rootCall noteFlash) WritesFit (none, []) loadedAgain := by
  refine ⟨trivial, ?_, trivial, ?_, trivial, trivial, ?_, ?_, ?_, trivial, ?_, trivial⟩
  · rintro total written hloading -
    cases hloading
    decide
  · rintro total written - hwrite
    exact absurd hwrite (by decide)
  · rintro total written hloading -
    cases hloading
    decide
  · rintro total written (_ | ⟨⟨⟩, _⟩) -
    decide
  · rintro total written (_ | ⟨_ | ⟨⟨⟩, _⟩, _⟩) -
    decide
  · rintro total written - hwrite
    exact absurd hwrite (by decide)

theorem only_complete_image_sent_again :
    let w := run (observe rootCall noteFlash) (none, []) loadedAgain
    (sendPasses oneNode w.1 = true ∧ w.2.length = 9) ∧
      Along (observe rootCall noteFlash) SendsComplete (none, []) loadedAgain :=
  ⟨by decide, only_complete_image_sent loadedAgain loadedAgain_fits⟩

end EspMesh
