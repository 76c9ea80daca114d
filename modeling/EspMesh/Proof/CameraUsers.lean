import EspMesh.Proof.CameraRing

/-! # What the users of the camera may rely on

A frame that a user has got is left alone by the filter task and the interrupts until it is given
back, and the driver has a frame to fill as long as there is one that nobody has.
-/

namespace EspMesh
set_option autoImplicit false
open ByteMem StepRuns CameraDriver

section Users
variable {c : CameraConf} {d d' : CameraDriver} {lost : List ℕ} {i : ℕ}

/-! ## Frames that others have -/

theorem cameraFbDone_kept (c : CameraConf) (d : CameraDriver) (hi : (d.frames i).ref = true) :
    (cameraFbDone c d).frames i = d.frames i := by
  unfold cameraFbDone
  split
  · rfl
  split
  · rename_i hfilled
    rw [Bool.and_eq_true, Bool.not_eq_true'] at hfilled
    dsimp only
    apply setFrame_of_ne
    intro hcur
    subst hcur
    exact absurd (hi.symm.trans hfilled.1) nofun
  · rfl

theorem dmaFinishFrame_kept (c : CameraConf) (hi : (d.frames i).ref = true) :
    (dmaFinishFrame c d).frames i = d.frames i := by
  unfold dmaFinishFrame
  split
  · rename_i hfree
    have hset : ∀ f : FrameBuffer, (d.setFrame d.fb f).frames i = d.frames i := by
      intro f
      apply setFrame_of_ne
      intro hcur
      subst hcur
      rw [Bool.not_eq_true'] at hfree
      exact absurd (hi.symm.trans hfree) nofun
    have hstart : ∀ f : FrameBuffer, (if c.fbCount = 1 then (d.setFrame d.fb f).i2sStartBus
        else d.setFrame d.fb f).frames i = d.frames i := by
      intro f
      split
      · exact hset f
      · exact hset f
    split
    · exact hstart _
    · dsimp only
      split
      · rw [cameraFbDone_kept c _ (by rw [hset]; exact hi), hset]
      · exact hstart _
  · split
    · exact cameraFbDone_kept c d hi
    · rfl

theorem advance_kept (c : CameraConf) (fb : ℕ) (hi : (d.frames i).ref = true) :
    (advance c d fb).frames i = d.frames i := by
  unfold advance
  dsimp only
  generalize nextFree c d fb c.fbCount _ = j
  split
  · rfl
  · rename_i hfree
    dsimp only
    apply setFrame_of_ne
    intro hij
    exact hfree (hij ▸ hi)

theorem freeFrame_kept {j : ℕ} (hij : i ≠ j) : (d.freeFrame j).frames i = d.frames i :=
  setFrame_of_ne _ hij

theorem filterStep_respects (c : CameraConf) (d : CameraDriver) :
    Respects d (filterStep c d) := by
  intro i hi hout hin
  unfold filterStep
  split
  · rename_i hpc
    split
    · rfl
    · rename_i idx rest hready
      have hsame := dmaFilterBuffer_same (d := { d with dataReady := rest }) c idx hpc
      exact hsame.kept i hi
    · rename_i rest hready
      exact dmaFinishFrame_kept (d := { d with dataReady := rest }) c hi
  · rfl
  · split
    · rfl
    · rename_i hfull
      apply freeFrame_kept
      intro hij
      exact hout (hfull ▸ hij ▸ List.mem_cons_self)
  · rfl
  · split
    · exact advance_kept c _ hi
    · rename_i hfull
      apply freeFrame_kept
      intro hij
      exact hin (hfull ▸ hij ▸ List.mem_cons_self)

theorem cameraStep_respects (c : CameraConf) (d : CameraDriver) (e : CameraEvent) :
    Respects d (d.step c e) := by
  cases e with
  | filter => exact filterStep_respects c d
  | get =>
    intro i _ _ _
    unfold step espCameraFbGet
    dsimp only
    split
    · split <;> rfl
    · split <;> rfl
  | giveBack fb =>
    intro i _ _ _
    unfold step espCameraFbReturn
    dsimp only
    split
    · rfl
    · split <;> rfl
  | dma data | vsync data | call | start | noVsync | timeout =>
    exact (bus_same c d _ (by trivial)).respects

/-- No frame goes to a user or comes from one, and a bus that runs is not stopped. -/
structure LeavesUsers (d d' : CameraDriver) : Prop where
  held : d'.held = d.held
  starting : d'.starting = d.starting
  running : d.rxStart = true → d'.rxStart = true

theorem dmaFilterBuffer_leaves (c : CameraConf) (d : CameraDriver) (idx : ℕ) :
    LeavesUsers d (dmaFilterBuffer c d idx) := by
  unfold dmaFilterBuffer
  dsimp only
  split
  · exact ⟨rfl, rfl, id⟩
  · split
    · exact ⟨rfl, rfl, id⟩
    · split
      · split <;> exact ⟨rfl, rfl, id⟩
      · exact ⟨rfl, rfl, id⟩

theorem dmaFinishFrame_leaves (c : CameraConf) (d : CameraDriver) :
    LeavesUsers d (dmaFinishFrame c d) := by
  have hdone : ∀ f : CameraDriver, LeavesUsers f (cameraFbDone c f) := by
    intro f
    unfold cameraFbDone
    split
    · exact ⟨rfl, rfl, id⟩
    · split <;> exact ⟨rfl, rfl, id⟩
  have hstart : ∀ f : CameraDriver, LeavesUsers f
      { (if c.fbCount = 1 then f.i2sStartBus else f) with dmaFilteredCount := 0 } := by
    intro f
    split
    · exact ⟨rfl, rfl, fun _ => rfl⟩
    · exact ⟨rfl, rfl, id⟩
  unfold dmaFinishFrame
  split
  · split
    · exact ⟨(hstart _).held, (hstart _).starting, (hstart (d.setFrame _ _)).running⟩
    · dsimp only
      split
      · exact ⟨(hdone _).held, (hdone _).starting, (hdone (d.setFrame _ _)).running⟩
      · exact ⟨(hstart _).held, (hstart _).starting, (hstart (d.setFrame _ _)).running⟩
  · split
    · exact hdone d
    · exact ⟨rfl, rfl, id⟩

theorem advance_leaves (c : CameraConf) (d : CameraDriver) (fb : ℕ) :
    LeavesUsers d (advance c d fb) := by
  unfold advance
  dsimp only
  generalize nextFree c d fb c.fbCount _ = j
  split <;> exact ⟨rfl, rfl, id⟩

theorem filterStep_leaves (c : CameraConf) (d : CameraDriver) : LeavesUsers d (filterStep c d) := by
  unfold filterStep
  split
  · split
    · exact ⟨rfl, rfl, id⟩
    · rename_i rest _
      have hleaves := dmaFilterBuffer_leaves c { d with dataReady := rest }
      exact ⟨(hleaves _).held, (hleaves _).starting, (hleaves _).running⟩
    · rename_i rest _
      have hleaves := dmaFinishFrame_leaves c { d with dataReady := rest }
      exact ⟨hleaves.held, hleaves.starting, hleaves.running⟩
  · exact ⟨rfl, rfl, id⟩
  · split <;> exact ⟨rfl, rfl, id⟩
  · exact ⟨rfl, rfl, id⟩
  · split
    · exact advance_leaves c d _
    · exact ⟨rfl, rfl, id⟩

/-- A user keeps a frame until it gives it back. -/
theorem cameraStep_held (hc : 1 < c.fbCount) (h : Ring c d lost) (e : CameraEvent)
    (hi : i ∈ d.held) :
    i ∈ (d.step c e).held ∨ e = .giveBack i ∧ i ∈ (d.step c e).fbIn := by
  cases e with
  | filter => exact .inl ((filterStep_leaves c d).held.symm ▸ hi)
  | get =>
    left
    unfold step espCameraFbGet
    dsimp only
    rw [if_neg hc.ne']
    split
    · exact hi
    · exact List.mem_cons_of_mem _ hi
  | giveBack fb =>
    have hroom := h.room hi
    unfold step espCameraFbReturn
    dsimp only
    rw [if_neg hc.ne']
    by_cases hfb : i = fb
    · subst hfb
      rw [if_pos ⟨hi, hroom⟩]
      exact .inr ⟨rfl, List.mem_append_right _ (List.mem_singleton_self i)⟩
    · left
      split
      · exact (List.mem_erase_of_ne hfb).mpr hi
      · exact hi
  | dma data | vsync data | call | start | noVsync | timeout =>
    exact .inl ((bus_same c d _ (by trivial)).mem_held hi)

end Users

/-! ## Two frames of one byte -/

def oneByteConf : CameraConf where
  fbCount := 2
  fbSize := 2
  pixelFormat := .grayscale
  width := 1
  height := 1
  fbBytesPerPixel := 1
  dmaPerLine := 1
  dmaDescCount := 2
  dmaLength := 16
  dmaFilter := dmaFilterJpeg
  resolution := (1, 1)

theorem oneByteConf_several : 1 < oneByteConf.fbCount := by decide

def oneByteFrame : List CameraEvent := [.dma fun _ => ⟨0, 0, 0, 0⟩, .filter, .filter]

/-- A user keeps the first frame while the other one is filled, and gives it back. -/
def keptFrame : List CameraEvent :=
  oneByteFrame ++ [.filter, .filter, .filter, .get] ++ oneByteFrame ++ [.filter, .giveBack 1]

/-- A user takes the first frame when the filter task has found it in `fb_out`. -/
def overtakenPop : List CameraEvent :=
  oneByteFrame ++ [.filter, .filter, .filter] ++ oneByteFrame ++
    [.filter, .get, .filter, .filter]

/-! ## Main results -/

/-- What a step leaves of the frames that users have: no frame is with two of them or in a queue
as well, none is written, and the queue has room for the one that is given back. -/
structure UsersSafe (c : CameraConf) (d : CameraDriver) (e : CameraEvent) : Prop where
  nodup : d.held.Nodup
  apart : ∀ i ∈ d.held, i ∉ d.fbOut ∧ i ∉ d.fbIn
  untouched : ∀ i ∈ d.held, (d.step c e).frames i = d.frames i
  kept : ∀ i ∈ d.held, i ∈ (d.step c e).held ∨ e = .giveBack i ∧ i ∈ (d.step c e).fbIn
  room : ∀ i ∈ d.held, d.fbIn.length < c.fbCount

/-- **In every order of interrupts, filter steps and users, a frame that a user has got is its own
until the user gives it back.** -/
theorem camera_frame_exclusive (c : CameraConf) (hc : 1 < c.fbCount) (es : List CameraEvent) :
    Along (step c) (UsersSafe c) c.init es := by
  apply (along_observe noteLost (c.init, []) es).mp
  apply along_of_invariant_along (I := fun w => Ring c w.1 w.2) (C := fun _ _ => True)
  · intro w e hring _
    exact ring_step hc hring e
  · intro w e hring _
    refine ⟨hring.held_nodup, fun i hi => hring.held_apart hi, fun i hi => ?_,
      fun i hi => cameraStep_held hc hring e hi, fun _ hi => hring.room hi⟩
    have hplace := hring.referenced_of_place (mem_places.mpr (.inr (.inr (.inl hi))))
    exact cameraStep_respects c w.1 e i hplace.2 (hring.held_apart hi).1 (hring.held_apart hi).2
  · exact init_ring hc
  · exact along_of_forall fun _ _ _ => trivial

theorem camera_frame_exclusive_kept :
    (run (step oneByteConf) oneByteConf.init (keptFrame.take 10)).held = [1] ∧
      Along (step oneByteConf) (UsersSafe oneByteConf) oneByteConf.init keptFrame :=
  ⟨by decide +kernel, camera_frame_exclusive oneByteConf oneByteConf_several keptFrame⟩

/-- **No frame is lost but by an overtaken pop: after every run, each frame is free, in one of the
queues, with a user, with the filter task, or noted as lost, and is there once.** -/
theorem camera_frames_accounted (c : CameraConf) (hc : 1 < c.fbCount) (es : List CameraEvent) :
    let w := run (observe (step c) noteLost) (c.init, []) es
    (freeFrames c w.1).val + (↑w.1.fbOut + ↑w.1.fbIn + ↑w.1.held + ↑w.1.pc.inHand) + ↑w.2 =
      Multiset.range c.fbCount := by
  intro w
  have hring : Ring c w.1 w.2 := ring_run hc es
  have haccount : (referenced c w.1).val = w.1.places + ↑w.2 := hring.account
  rw [add_assoc, ← places, ← haccount, add_comm]
  exact Multiset.filter_add_not (fun i => (w.1.frames i).ref = true) (Multiset.range c.fbCount)

theorem camera_frames_accounted_overtaken :
    let w := run (observe (step oneByteConf) noteLost) (oneByteConf.init, []) overtakenPop
    (w.1.held = [1] ∧ w.2 = [0]) ∧
      (freeFrames oneByteConf w.1).val +
        (↑w.1.fbOut + ↑w.1.fbIn + ↑w.1.held + ↑w.1.pc.inHand) + ↑w.2 = Multiset.range 2 :=
  ⟨by decide +kernel, camera_frames_accounted oneByteConf oneByteConf_several overtakenPop⟩

/-- **The filter task waits with nothing to fill only while users, the queues and the lost frames
have all the frames.** -/
theorem camera_stalls_when_all_out (c : CameraConf) (hc : 1 < c.fbCount)
    (es : List CameraEvent) :
    let w := run (observe (step c) noteLost) (c.init, []) es
    w.1.pc = .ready → w.1.frame.ref = true →
      c.fbCount = w.1.fbOut.length + w.1.fbIn.length + w.1.held.length + w.2.length := by
  intro w hpc href
  have hring : Ring c w.1 w.2 := ring_run hc es
  have hall : (referenced c w.1).card = c.fbCount := by
    rw [← Finset.card_range c.fbCount, referenced, Finset.card_filter_eq_iff]
    intro i hi
    by_contra hfree
    have hmem : i ∈ freeFrames c w.1 := Finset.mem_filter.mpr ⟨hi, hfree⟩
    rw [hring.stalled hpc href] at hmem
    exact absurd hmem (Finset.notMem_empty i)
  have haccount := congrArg Multiset.card hring.account
  rw [← Finset.card_def, hall] at haccount
  simp only [places, hpc, FilterPc.inHand, Multiset.card_add, Multiset.coe_card,
    List.length_nil] at haccount
  exact haccount

theorem camera_stalls_overtaken :
    let w := run (observe (step oneByteConf) noteLost) (oneByteConf.init, []) overtakenPop
    (w.1.pc = .ready ∧ w.1.frame.ref = true ∧ w.1.held = [1] ∧ w.2 = [0]) ∧
      oneByteConf.fbCount =
        w.1.fbOut.length + w.1.fbIn.length + w.1.held.length + w.2.length := by
  intro w
  have hw : w.1.pc = .ready ∧ w.1.frame.ref = true ∧ w.1.held = [1] ∧ w.2 = [0] := by decide +kernel
  exact ⟨hw, camera_stalls_when_all_out oneByteConf oneByteConf_several overtakenPop hw.1 hw.2.1⟩

end EspMesh
