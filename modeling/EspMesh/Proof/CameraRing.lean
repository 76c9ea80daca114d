import EspMesh.Library.StepRuns
import EspMesh.Model.CameraDriver
import Mathlib.Algebra.Order.Group.Multiset
import Mathlib.Data.Finset.Card
import Mathlib.Data.Finset.Range
import Mathlib.Tactic.Abel

/-! # Who has a frame of the camera

Every frame with a reference is in one of the queues, with a user, in the hands of the filter
task, or lost. It is lost only where a user takes the frame out of `fb_out` after the filter task
has found the queue full and before it has taken the frame itself.
-/

namespace EspMesh
set_option autoImplicit false
open ByteMem StepRuns CameraDriver

/-! ## Places -/

/-- The frame that is to be sent to `fb_out`. -/
def FilterPc.inHand : FilterPc → List ℕ
  | .test fb | .pop fb | .push fb => [fb]
  | .ready | .drain _ => []

def CameraDriver.places (d : CameraDriver) : Multiset ℕ :=
  ↑d.fbOut + ↑d.fbIn + ↑d.held + ↑d.pc.inHand

def referenced (c : CameraConf) (d : CameraDriver) : Finset ℕ :=
  (Finset.range c.fbCount).filter fun i => (d.frames i).ref = true

def freeFrames (c : CameraConf) (d : CameraDriver) : Finset ℕ :=
  (Finset.range c.fbCount).filter fun i => ¬ (d.frames i).ref = true

/-- The pop of a queue that was full, and is empty now. -/
def CameraDriver.losing (d : CameraDriver) : CameraEvent → List ℕ
  | .filter =>
    match d.pc, d.fbOut with
    | .pop fb, [] => [fb]
    | _, _ => []
  | _ => []

/-- The frames lost so far. -/
def noteLost (lost : List ℕ) (d : CameraDriver) (e : CameraEvent) : List ℕ := d.losing e ++ lost

structure Ring (c : CameraConf) (d : CameraDriver) (lost : List ℕ) : Prop where
  cur : d.fb < c.fbCount
  hand : ∀ fb ∈ d.pc.inHand, fb = d.fb
  drain : ∀ fb, d.pc = .drain fb → fb = d.fb ∧ ((d.frames fb).ref = true ∨ (d.frames fb).len = 0)
  full : ∀ i, (d.frames i).ref = true → (d.frames i).len ≠ 0
  stalled : d.pc = .ready → d.frame.ref = true → freeFrames c d = ∅
  out : d.fbOut.length ≤ 1
  push : ∀ fb, d.pc = .push fb → d.fbOut = []
  account : (referenced c d).val = d.places + ↑lost

section Places
variable {c : CameraConf} {d d' : CameraDriver} {lost : List ℕ} {i : ℕ}

theorem mem_referenced : i ∈ referenced c d ↔ i < c.fbCount ∧ (d.frames i).ref = true := by
  rw [referenced, Finset.mem_filter, Finset.mem_range]

theorem Ring.referenced_of_place (h : Ring c d lost) (hi : i ∈ d.places) :
    i < c.fbCount ∧ (d.frames i).ref = true := by
  rw [← mem_referenced, ← Finset.mem_val, h.account]
  exact Multiset.mem_add.mpr (.inl hi)

theorem mem_places : i ∈ d.places ↔ i ∈ d.fbOut ∨ i ∈ d.fbIn ∨ i ∈ d.held ∨ i ∈ d.pc.inHand := by
  simp only [places, Multiset.mem_add, Multiset.mem_coe, or_assoc]

theorem Ring.nodup (h : Ring c d lost) : (d.places + ↑lost).Nodup :=
  h.account ▸ (referenced c d).nodup

theorem Ring.places_nodup (h : Ring c d lost) :
    (d.fbOut ++ d.fbIn ++ d.held ++ d.pc.inHand).Nodup := by
  have hplaces := (Multiset.nodup_add.mp h.nodup).1
  rw [places, Multiset.coe_add, Multiset.coe_add, Multiset.coe_add, Multiset.coe_nodup] at hplaces
  exact hplaces

theorem Ring.held_nodup (h : Ring c d lost) : d.held.Nodup :=
  (List.nodup_append.mp (List.nodup_append.mp h.places_nodup).1).2.1

theorem Ring.held_apart (h : Ring c d lost) (hi : i ∈ d.held) : i ∉ d.fbOut ∧ i ∉ d.fbIn := by
  have hnodup := (List.nodup_append.mp h.places_nodup).1
  have hdisjoint := (List.nodup_append.mp hnodup).2.2
  refine ⟨fun hout => ?_, fun hin => ?_⟩
  · exact hdisjoint i (List.mem_append_left _ hout) i hi rfl
  · exact hdisjoint i (List.mem_append_right _ hin) i hi rfl

/-- There is always room for a frame that a user gives back. -/
theorem Ring.room (h : Ring c d lost) (hi : i ∈ d.held) : d.fbIn.length < c.fbCount := by
  have hcard : (referenced c d).card ≤ c.fbCount := by
    refine (Finset.card_filter_le _ _).trans ?_
    rw [Finset.card_range]
  have hplaces : (referenced c d).card = d.places.card + lost.length := by
    rw [Finset.card, h.account, Multiset.card_add, Multiset.coe_card]
  have hheld := List.length_pos_of_mem hi
  simp only [places, Multiset.card_add, Multiset.coe_card] at hplaces
  omega

theorem referenced_congr (h : ∀ i, (d'.frames i).ref = (d.frames i).ref) :
    referenced c d' = referenced c d := by
  refine Finset.filter_congr fun i _ => ?_
  rw [h i]

theorem referenced_insert (hi : i < c.fbCount) (hold : (d.frames i).ref = false)
    (hnew : (d'.frames i).ref = true) (hother : ∀ j, j ≠ i → (d'.frames j).ref = (d.frames j).ref) :
    (referenced c d').val = i ::ₘ (referenced c d).val := by
  have hnot : i ∉ referenced c d := by
    rw [mem_referenced, hold]
    simp
  rw [← Finset.insert_val_of_notMem hnot]
  congr 1
  ext j
  rw [Finset.mem_insert, mem_referenced, mem_referenced]
  by_cases hj : j = i
  · rw [hj, hnew]
    exact iff_of_true ⟨hi, rfl⟩ (.inl rfl)
  · rw [hother j hj]
    exact (or_iff_right hj).symm

theorem referenced_erase (hi : i < c.fbCount) (hold : (d.frames i).ref = true)
    (hnew : (d'.frames i).ref = false)
    (hother : ∀ j, j ≠ i → (d'.frames j).ref = (d.frames j).ref) :
    (referenced c d).val = i ::ₘ (referenced c d').val :=
  referenced_insert hi hnew hold fun j hj => (hother j hj).symm

/-! ## Steps that free or reference no frame -/

/-- What the filter task and the interrupts leave of the frames that they do not own. -/
def Respects (d d' : CameraDriver) : Prop :=
  ∀ i, (d.frames i).ref = true → i ∉ d.fbOut → i ∉ d.fbIn → d'.frames i = d.frames i

/-- Nothing changes about who has which frame. -/
structure SameHolders (d d' : CameraDriver) : Prop where
  ref : ∀ i, (d'.frames i).ref = (d.frames i).ref
  kept : ∀ i, (d.frames i).ref = true → d'.frames i = d.frames i
  len : ∀ i, d.pc ≠ .ready → (d'.frames i).len = (d.frames i).len
  fb : d'.fb = d.fb
  fbOut : d'.fbOut = d.fbOut
  fbIn : d'.fbIn = d.fbIn
  held : d'.held = d.held
  pc : d'.pc = d.pc

theorem SameHolders.of_frames (hframes : d'.frames = d.frames) (hfb : d'.fb = d.fb)
    (hout : d'.fbOut = d.fbOut) (hin : d'.fbIn = d.fbIn) (hheld : d'.held = d.held)
    (hpc : d'.pc = d.pc) : SameHolders d d' := by
  refine ⟨?_, ?_, ?_, hfb, hout, hin, hheld, hpc⟩ <;> intros <;> rw [hframes]

theorem SameHolders.refl (d : CameraDriver) : SameHolders d d :=
  .of_frames rfl rfl rfl rfl rfl rfl

theorem SameHolders.trans {d'' : CameraDriver} (h : SameHolders d d') (h' : SameHolders d' d'') :
    SameHolders d d'' where
  ref i := (h'.ref i).trans (h.ref i)
  kept i hi := (h'.kept i ((h.ref i).trans hi)).trans (h.kept i hi)
  len i hi := (h'.len i (h.pc ▸ hi)).trans (h.len i hi)
  fb := h'.fb.trans h.fb
  fbOut := h'.fbOut.trans h.fbOut
  fbIn := h'.fbIn.trans h.fbIn
  held := h'.held.trans h.held
  pc := h'.pc.trans h.pc

theorem SameHolders.respects (h : SameHolders d d') : Respects d d' := fun i hi _ _ => h.kept i hi

theorem SameHolders.mem_held (h : SameHolders d d') (hi : i ∈ d.held) : i ∈ d'.held :=
  h.held.symm ▸ hi

theorem freeFrames_congr (h : ∀ i, (d'.frames i).ref = (d.frames i).ref) :
    freeFrames c d' = freeFrames c d := by
  refine Finset.filter_congr fun i _ => ?_
  rw [h i]

theorem SameHolders.ring (h : SameHolders d d') (hring : Ring c d lost) : Ring c d' lost where
  cur := h.fb ▸ hring.cur
  hand := by
    rw [h.pc, h.fb]
    exact hring.hand
  drain fb hfb := by
    rw [h.pc] at hfb
    have hdrain := hring.drain fb hfb
    rw [h.fb, h.ref, h.len fb (by rw [hfb]; exact nofun)]
    exact hdrain
  full i hi := by
    rw [h.ref] at hi
    rw [h.kept i hi]
    exact hring.full i hi
  stalled hpc href := by
    rw [frame, h.fb, h.ref] at href
    rw [freeFrames_congr h.ref]
    exact hring.stalled (h.pc ▸ hpc) href
  out := h.fbOut ▸ hring.out
  push fb hfb := h.fbOut ▸ hring.push fb (h.pc ▸ hfb)
  account := by
    rw [referenced_congr h.ref, hring.account, places, places, h.fbOut, h.fbIn, h.held, h.pc]

theorem setFrame_of_ne {j : ℕ} (f : FrameBuffer) (hj : j ≠ i) :
    (d.setFrame i f).frames j = d.frames j :=
  Function.update_of_ne hj _ _

theorem setFrame_self (f : FrameBuffer) : (d.setFrame i f).frames i = f :=
  Function.update_self _ _ _

/-- A frame without a reference is changed. -/
theorem sameHolders_setFrame (f : FrameBuffer) (hfree : (d.frames i).ref = false)
    (hf : f.ref = false) (hlen : d.pc ≠ .ready → f.len = (d.frames i).len) :
    SameHolders d (d.setFrame i f) := by
  refine ⟨fun j => ?_, fun j hj => ?_, fun j hpc => ?_, rfl, rfl, rfl, rfl, rfl⟩
  · by_cases hj : j = i
    · rw [hj, setFrame_self, hf, hfree]
    · rw [setFrame_of_ne f hj]
  · apply setFrame_of_ne
    intro hi
    rw [hi, hfree] at hj
    cases hj
  · by_cases hj : j = i
    · rw [hj, setFrame_self, hlen hpc]
    · rw [setFrame_of_ne f hj]

/-- The fields that only the filter task and the interrupts use. -/
theorem SameHolders.with_dma (h : SameHolders d d') (received filtered cur : ℕ)
    (buf : ℕ → ℕ → DmaElem) (ready : List (Option ℕ)) (rx frameReady : Bool) (starting : ℕ) :
    SameHolders d { d' with
      dmaReceivedCount := received
      dmaFilteredCount := filtered
      dmaDescCur := cur
      dmaBuf := buf
      dataReady := ready
      rxStart := rx
      frameReady := frameReady
      starting := starting } :=
  ⟨h.ref, h.kept, h.len, h.fb, h.fbOut, h.fbIn, h.held, h.pc⟩

theorem dmaFilterBuffer_same (c : CameraConf) (idx : ℕ) (hpc : d.pc = .ready) :
    SameHolders d (dmaFilterBuffer c d idx) := by
  unfold dmaFilterBuffer
  dsimp only
  split
  · exact .refl d
  · rename_i hfree
    rw [Bool.or_eq_true, not_or] at hfree
    have href : (d.frames d.fb).ref = false := Bool.eq_false_iff.mpr hfree.1
    have hset : ∀ f : FrameBuffer, f.ref = false → SameHolders d (d.setFrame d.fb f) :=
      fun f hf => sameHolders_setFrame f href hf fun h => absurd hpc h
    split
    · exact .refl d
    · split
      · split
        · exact hset _ href
        · exact (hset _ (by exact href)).with_dma ..
      · exact (hset _ (by exact href)).with_dma ..

theorem dataReadySend_same (h : SameHolders d d') (item : Option ℕ) :
    SameHolders d (d'.dataReadySend item).1 := by
  unfold dataReadySend
  split
  · exact h.with_dma ..
  · exact h

theorem i2sStop_same (c : CameraConf) (h : SameHolders d d') : SameHolders d (i2sStop c d') := by
  unfold i2sStop
  apply dataReadySend_same
  split
  · exact h.with_dma ..
  · exact h.with_dma ..

theorem signalDmaBufReceived_same (c : CameraConf) (d : CameraDriver) :
    SameHolders d (signalDmaBufReceived c d) := by
  have hsent := dataReadySend_same ((SameHolders.refl d).with_dma (d.dmaReceivedCount + 1)
    d.dmaFilteredCount ((d.dmaDescCur + 1) % c.dmaDescCount) d.dmaBuf d.dataReady d.rxStart
    d.frameReady d.starting) (some d.dmaDescCur)
  unfold signalDmaBufReceived
  dsimp only
  split
  · exact (SameHolders.refl d).with_dma ..
  · split
    · rename_i hlost
      rw [Bool.and_eq_true, Bool.not_eq_true', Bool.not_eq_true'] at hlost
      exact hsent.trans (sameHolders_setFrame _ hlost.2 hlost.2 fun _ => rfl)
    · exact hsent

theorem i2sIsr_same (c : CameraConf) (d : CameraDriver) (data : ℕ → DmaElem) :
    SameHolders d (i2sIsr c (d.dmaFill data)) := by
  have hfill : SameHolders d (d.dmaFill data) := (SameHolders.refl d).with_dma ..
  have hsignal := hfill.trans (signalDmaBufReceived_same c _)
  unfold i2sIsr
  dsimp only
  split
  · exact i2sStop_same c hsignal
  · exact hsignal

theorem vsyncIsr_same (c : CameraConf) (d : CameraDriver) (data : ℕ → DmaElem) :
    SameHolders d (vsyncIsr c (d.dmaFill data)) := by
  have hfill : SameHolders d (d.dmaFill data) := (SameHolders.refl d).with_dma ..
  have hsignal := hfill.trans (signalDmaBufReceived_same c _)
  have hdone : SameHolders d (vsyncFrameDone c (d.dmaFill data)) := by
    unfold vsyncFrameDone
    dsimp only
    split
    · split
      · exact i2sStop_same c hsignal
      · exact hsignal
    · exact hfill
  unfold vsyncIsr
  dsimp only
  split
  · exact hdone.with_dma ..
  · exact hdone

/-- The events of the interrupts, and of the users that have no frame. -/
def CameraEvent.OnBus : CameraEvent → Prop
  | .filter | .get | .giveBack _ => False
  | _ => True

theorem bus_same (c : CameraConf) (d : CameraDriver) (e : CameraEvent) (he : e.OnBus) :
    SameHolders d (d.step c e) := by
  cases e with
  | filter | get | giveBack fb => exact absurd he not_false
  | dma data =>
    unfold step
    dsimp only
    split
    · exact i2sIsr_same c d data
    · exact .refl d
  | vsync data =>
    unfold step
    dsimp only
    split
    · exact vsyncIsr_same c d data
    · exact .refl d
  | call =>
    unfold step
    dsimp only
    split
    · exact .refl d
    · exact (SameHolders.refl d).with_dma ..
  | start =>
    unfold step
    dsimp only
    split
    · exact .refl d
    · exact (SameHolders.refl d).with_dma ..
  | noVsync => exact (SameHolders.refl d).with_dma ..
  | timeout => exact i2sStop_same c (.refl d)

/-! ## The filter task, once a frame is complete -/

theorem Ring.at_frame (h : Ring c d lost) (fb : ℕ) (hfb : fb ∈ d.pc.inHand) :
    fb = d.fb ∧ (d.frames fb).ref = true :=
  ⟨h.hand fb hfb, (h.referenced_of_place (mem_places.mpr (.inr (.inr (.inr hfb))))).2⟩

/-- A frame that is filled gets a reference and is in hand; nothing else changes. -/
theorem cameraFbDone_ring (h : Ring c d lost) (hpc : d.pc = .ready) :
    Ring c (cameraFbDone c d) lost := by
  have haccount := h.account
  rw [places, hpc] at haccount
  unfold cameraFbDone
  split
  · exact ((SameHolders.refl d).with_dma ..).ring h
  split
  · rename_i hfilled
    rw [Bool.and_eq_true, Bool.not_eq_true', bne_iff_ne] at hfilled
    refine ⟨h.cur, fun fb hfb => List.mem_singleton.mp hfb, nofun, fun i hi => ?_, nofun, h.out,
      nofun, ?_⟩
    · by_cases hcur : i = d.fb
      · subst hcur
        simp only [setFrame, Function.update_self]
        exact hfilled.2
      · simp only [setFrame, Function.update_of_ne hcur] at hi ⊢
        exact h.full i hi
    · rw [referenced_insert (d := d) h.cur hfilled.1
        (by simp only [setFrame, Function.update_self])
        fun j hj => by simp only [setFrame, Function.update_of_ne hj], haccount]
      simp only [places, setFrame, FilterPc.inHand, Multiset.coe_nil, add_zero,
        Multiset.coe_singleton]
      rw [← Multiset.singleton_add]
      abel
  · rename_i hfilled
    rw [Bool.and_eq_true, Bool.not_eq_true', bne_iff_ne, not_and_not_right] at hfilled
    refine ⟨h.cur, nofun, fun fb hfb => ?_, h.full, nofun, h.out, nofun, haccount⟩
    cases hfb
    refine ⟨rfl, ?_⟩
    cases href : d.frame.ref with
    | false => exact .inr (hfilled href)
    | true => exact .inl href

theorem dmaFinishFrame_ring (h : Ring c d lost) (hpc : d.pc = .ready) :
    Ring c (dmaFinishFrame c d) lost := by
  unfold dmaFinishFrame
  split
  · rename_i hfree
    rw [Bool.not_eq_true'] at hfree
    have hset : ∀ f : FrameBuffer, f.ref = false → SameHolders d (d.setFrame d.fb f) :=
      fun f hf => sameHolders_setFrame f hfree hf fun h => absurd hpc h
    have hstart : ∀ f : FrameBuffer, f.ref = false → Ring c { (if c.fbCount = 1 then
        (d.setFrame d.fb f).i2sStartBus else d.setFrame d.fb f) with dmaFilteredCount := 0 }
        lost := by
      intro f hf
      split
      · exact ((hset f hf).with_dma ..).ring h
      · exact ((hset f hf).with_dma ..).ring h
    split
    · exact hstart _ hfree
    · dsimp only
      split
      · exact cameraFbDone_ring ((hset _ (by exact hfree)).ring h) hpc
      · exact hstart _ hfree
  · split
    · exact cameraFbDone_ring h hpc
    · exact ((SameHolders.refl d).with_dma ..).ring h

theorem Ring.freed (h : Ring c d lost) (hi : i ∈ d.places) :
    (referenced c d).val = i ::ₘ (referenced c (d.freeFrame i)).val := by
  have hplace := h.referenced_of_place hi
  apply referenced_erase hplace.1 hplace.2
  · rw [freeFrame, setFrame_self]
  · intro j hj
    rw [freeFrame, setFrame_of_ne _ hj]

theorem freeFrame_full (h : ∀ j, (d.frames j).ref = true → (d.frames j).len ≠ 0) {j : ℕ}
    (hj : ((d.freeFrame i).frames j).ref = true) : ((d.freeFrame i).frames j).len ≠ 0 := by
  unfold freeFrame at hj ⊢
  by_cases hi : j = i
  · subst hi
    rw [setFrame_self] at hj
    cases hj
  · rw [setFrame_of_ne _ hi] at hj ⊢
    exact h j hj

/-- The frame in `fb_out` makes room for the one in hand. -/
theorem pop_ring (h : Ring c d lost) {fb fb2 : ℕ} {rest : List ℕ} (hpc : d.pc = .pop fb)
    (hout : d.fbOut = fb2 :: rest) :
    Ring c { d.freeFrame fb2 with fbOut := rest, pc := .push fb } lost := by
  have hlen := h.out
  rw [hout, List.length_cons] at hlen
  have hrest : rest = [] := List.length_eq_zero_iff.mp (by omega)
  have hhand := h.hand
  have hfree := h.freed (i := fb2) (mem_places.mpr (.inl (hout ▸ List.mem_cons_self)))
  have haccount := h.account
  rw [hpc] at hhand
  rw [hfree, places, hpc, hout, ← Multiset.cons_coe, ← Multiset.singleton_add,
    ← Multiset.singleton_add] at haccount
  refine ⟨h.cur, hhand, nofun, fun j => freeFrame_full h.full, nofun, ?_, fun _ _ => hrest, ?_⟩
  · dsimp only
    omega
  · apply add_left_cancel (a := {fb2})
    refine Eq.trans haccount ?_
    simp only [places, freeFrame, setFrame, FilterPc.inHand]
    abel

/-- What users have given back is free again. -/
theorem drain_ring (h : Ring c d lost) {fb fb2 : ℕ} {rest : List ℕ} (hpc : d.pc = .drain fb)
    (hin : d.fbIn = fb2 :: rest) : Ring c { d.freeFrame fb2 with fbIn := rest } lost := by
  have hfree := h.freed (i := fb2) (mem_places.mpr (.inr (.inl (hin ▸ List.mem_cons_self))))
  have haccount := h.account
  rw [hfree, places, hin, ← Multiset.cons_coe, ← Multiset.singleton_add,
    ← Multiset.singleton_add] at haccount
  refine ⟨h.cur, h.hand, fun fb' hfb' => ?_, fun j => freeFrame_full h.full, fun hready => ?_,
    h.out, h.push, ?_⟩
  · have hdrain := h.drain fb' hfb'
    refine ⟨hdrain.1, ?_⟩
    unfold freeFrame
    by_cases hcur : fb' = fb2
    · subst hcur
      dsimp only
      rw [setFrame_self]
      exact .inr rfl
    · dsimp only
      rw [setFrame_of_ne _ hcur]
      exact hdrain.2
  · exact absurd (hpc.symm.trans hready) nofun
  · apply add_left_cancel (a := {fb2})
    refine Eq.trans haccount ?_
    simp only [places, freeFrame, setFrame]
    abel

/-! ## `next` -/

theorem next_lt (hi : i < c.fbCount) : c.next i < c.fbCount := by
  unfold CameraConf.next
  split <;> omega

theorem nextFree_lt (d : CameraDriver) (fb n : ℕ) (hi : i < c.fbCount) :
    nextFree c d fb n i < c.fbCount := by
  induction n generalizing i with
  | zero => exact hi
  | succ n ih =>
    unfold nextFree
    split
    · exact ih (next_lt hi)
    · exact hi

theorem nextFree_free {fb n : ℕ} (hi : (d.frames i).ref = false) : nextFree c d fb n i = i := by
  cases n with
  | zero => rfl
  | succ n =>
    unfold nextFree
    rw [hi, if_neg (fun hgoes => absurd hgoes.1 nofun)]

/-- How many links lead from a frame to the one in front of `fb`. -/
def linksTo (c : CameraConf) (fb i : ℕ) : ℕ := (i + c.fbCount - (fb + 1)) % c.fbCount

theorem linksTo_eq {fb : ℕ} (hfb : fb < c.fbCount) (hi : i < c.fbCount) :
    linksTo c fb i = if fb < i then i - (fb + 1) else i + c.fbCount - (fb + 1) := by
  unfold linksTo
  split
  · rw [Nat.mod_eq_sub_mod (by omega), Nat.mod_eq_of_lt (by omega)]
    omega
  · exact Nat.mod_eq_of_lt (by omega)

section Links
variable {fb j : ℕ} (hfb : fb < c.fbCount)
include hfb

theorem linksTo_lt : linksTo c fb i < c.fbCount := Nat.mod_lt _ (by omega)

theorem linksTo_next (hi : i < c.fbCount) (h : c.next i ≠ fb) :
    linksTo c fb (c.next i) + 1 = linksTo c fb i := by
  rw [linksTo_eq hfb hi, linksTo_eq hfb (next_lt hi)]
  unfold CameraConf.next at h ⊢
  by_cases hzero : i = 0
  · rw [if_pos hzero] at h ⊢
    split <;> split <;> omega
  · rw [if_neg hzero] at h ⊢
    split <;> split <;> omega

theorem linksTo_last (hi : i < c.fbCount) (h : c.next i = fb) : linksTo c fb i = 0 := by
  rw [linksTo_eq hfb hi]
  unfold CameraConf.next at h
  split at h <;> split <;> omega

theorem linksTo_inj (hj : j < c.fbCount) (hi : i < c.fbCount)
    (h : linksTo c fb j = linksTo c fb i) : j = i := by
  rw [linksTo_eq hfb hi, linksTo_eq hfb hj] at h
  split at h <;> split at h <;> omega

theorem linksTo_le_next (hj : j < c.fbCount) (hne : j ≠ fb) :
    linksTo c fb j ≤ linksTo c fb (c.next fb) := by
  rw [linksTo_eq hfb hj, linksTo_eq hfb (next_lt hfb)]
  unfold CameraConf.next
  split <;> split <;> split <;> omega

end Links

/-- Where the loop ends at a frame with a reference, it has seen no other one. -/
theorem nextFree_all {fb j : ℕ} (hfb : fb < c.fbCount) (hi : i < c.fbCount) (hj : j < c.fbCount)
    {n : ℕ} (hn : linksTo c fb i ≤ n) (hji : linksTo c fb j ≤ linksTo c fb i)
    (hend : (d.frames (nextFree c d fb n i)).ref = true) : (d.frames j).ref = true := by
  induction n generalizing i with
  | zero =>
    rw [linksTo_inj hfb hj hi (by omega)]
    exact hend
  | succ n ih =>
    unfold nextFree at hend
    split at hend
    · rename_i hgoes
      have hlinks := linksTo_next hfb hi hgoes.2
      by_cases heq : linksTo c fb j = linksTo c fb i
      · rw [linksTo_inj hfb hj hi heq]
        exact hgoes.1
      · exact ih (next_lt hi) (by omega) (by omega) hend
    · rename_i hends
      rw [not_and_not_right] at hends
      have hzero := linksTo_last hfb hi (hends hend)
      rw [linksTo_inj hfb hj hi (by omega)]
      exact hend

/-- The filter task looks for a frame without a reference, and finds one if there is one. -/
theorem advance_ring (h : Ring c d lost) {fb : ℕ} (hpc : d.pc = .drain fb) :
    Ring c (advance c d fb) lost := by
  obtain ⟨rfl, hcur⟩ := h.drain fb hpc
  have hstart : (if d.frame.len ≠ 0 then c.next d.fb else d.fb) < c.fbCount := by
    split
    · exact next_lt h.cur
    · exact h.cur
  have hlt := nextFree_lt d d.fb c.fbCount hstart
  have hnone : (d.frames (nextFree c d d.fb c.fbCount
      (if d.frame.len ≠ 0 then c.next d.fb else d.fb))).ref = true → freeFrames c d = ∅ := by
    intro href
    by_cases hlen : d.frame.len ≠ 0
    · rw [if_pos hlen] at href
      have hself : (d.frames d.fb).ref = true := hcur.resolve_right hlen
      refine Finset.filter_eq_empty_iff.mpr fun j hj => ?_
      rw [Finset.mem_range] at hj
      by_cases hjfb : j = d.fb
      · rw [hjfb, hself]
        exact not_not_intro rfl
      · rw [nextFree_all h.cur (next_lt h.cur) hj (linksTo_lt h.cur).le
          (linksTo_le_next h.cur hj hjfb) href]
        exact not_not_intro rfl
    · rw [if_neg hlen] at href
      have hself : (d.frames d.fb).ref = false := by
        apply Bool.eq_false_iff.mpr
        intro hself
        exact hlen (h.full d.fb hself)
      rw [nextFree_free hself, hself] at href
      cases href
  have haccount := h.account
  rw [places, hpc] at haccount
  unfold advance
  dsimp only
  generalize nextFree c d d.fb c.fbCount _ = i at hlt hnone ⊢
  split
  · rename_i href
    exact ⟨h.cur, nofun, nofun, h.full, fun _ _ => hnone href, h.out, nofun, haccount⟩
  · rename_i href
    rw [Bool.not_eq_true] at href
    refine ⟨hlt, nofun, nofun, fun j hj => ?_, fun _ hready => ?_, h.out, nofun, ?_⟩
    · by_cases hji : j = i
      · subst hji
        dsimp only at hj
        rw [setFrame_self] at hj
        exact absurd (hj.symm.trans href) nofun
      · dsimp only at hj ⊢
        rw [setFrame_of_ne _ hji] at hj ⊢
        exact h.full j hj
    · unfold frame at hready
      dsimp only at hready
      rw [setFrame_self] at hready
      exact absurd (hready.symm.trans href) nofun
    · rw [referenced_congr (d := d)]
      · exact haccount
      · intro j
        by_cases hji : j = i
        · subst hji
          dsimp only
          rw [setFrame_self]
          rfl
        · dsimp only
          rw [setFrame_of_ne _ hji]

/-! ## Every step -/

theorem filterStep_ring (h : Ring c d lost) :
    Ring c (filterStep c d) (noteLost lost d .filter) := by
  have hlosing : (∀ fb, d.pc = .pop fb → d.fbOut ≠ []) → noteLost lost d .filter = lost := by
    intro hpop
    unfold noteLost losing
    dsimp only
    split
    · rename_i hpc hout
      exact absurd hout (hpop _ hpc)
    · rfl
  unfold filterStep
  split
  · rename_i hpc
    rw [hlosing fun fb hfb => absurd (hpc.symm.trans hfb) nofun]
    split
    · exact h
    · exact (dmaFilterBuffer_same c _ (by exact hpc)).ring
        (((SameHolders.refl d).with_dma ..).ring h)
    · exact dmaFinishFrame_ring (((SameHolders.refl d).with_dma ..).ring h) (by exact hpc)
  · rename_i fb hpc
    rw [hlosing fun fb hfb => absurd (hpc.symm.trans hfb) nofun]
    have hhand := h.hand
    have haccount := h.account
    rw [places, hpc] at haccount
    rw [hpc] at hhand
    refine ⟨h.cur, ?_, ?_, h.full, ?_, h.out, fun fb' hfb' => ?_, ?_⟩
    · split <;> exact hhand
    · intro fb' hfb'
      dsimp only at hfb'
      split at hfb' <;> cases hfb'
    · intro hready
      dsimp only at hready
      split at hready <;> cases hready
    · dsimp only at hfb'
      split at hfb'
      · rename_i hempty
        exact hempty
      · cases hfb'
    · refine Eq.trans haccount ?_
      unfold places
      dsimp only
      split <;> rfl
  · rename_i fb hpc
    split
    · rename_i hout
      obtain ⟨hcur, href⟩ := h.at_frame fb (hpc ▸ List.mem_singleton_self fb)
      have haccount := h.account
      rw [places, hpc] at haccount
      have hnote : noteLost lost d .filter = fb :: lost := by
        unfold noteLost losing
        simp only [hpc, hout, List.singleton_append]
      rw [hnote]
      refine ⟨h.cur, nofun, fun fb' hfb' => ?_, h.full, nofun, h.out, nofun, ?_⟩
      · cases hfb'
        exact ⟨hcur, .inl href⟩
      · refine Eq.trans haccount ?_
        rw [← Multiset.cons_coe, ← Multiset.singleton_add]
        simp only [places, FilterPc.inHand, Multiset.coe_singleton, Multiset.coe_nil]
        abel
    · rename_i fb2 rest hout
      rw [hlosing fun _ _ => hout ▸ List.cons_ne_nil _ _]
      exact pop_ring h hpc hout
  · rename_i fb hpc
    rw [hlosing fun fb hfb => absurd (hpc.symm.trans hfb) nofun]
    obtain ⟨hcur, href⟩ := h.at_frame fb (hpc ▸ List.mem_singleton_self fb)
    have hout := h.push fb hpc
    have haccount := h.account
    rw [places, hpc, hout] at haccount
    rw [if_pos hout]
    refine ⟨h.cur, nofun, fun fb' hfb' => ?_, h.full, nofun, le_refl 1, nofun, ?_⟩
    · cases hfb'
      exact ⟨hcur, .inl href⟩
    · refine Eq.trans haccount ?_
      simp only [places, FilterPc.inHand, Multiset.coe_singleton, Multiset.coe_nil]
      abel
  · rename_i fb hpc
    rw [hlosing fun fb hfb => absurd (hpc.symm.trans hfb) nofun]
    split
    · exact advance_ring h hpc
    · rename_i fb2 rest hin
      exact drain_ring h hpc hin

section Several
variable (hc : 1 < c.fbCount)
include hc

theorem espCameraFbGet_ring (h : Ring c d lost) : Ring c (espCameraFbGet c d) lost := by
  unfold espCameraFbGet
  rw [if_neg hc.ne']
  split
  · exact h
  · rename_i fb rest hout
    have hlen := h.out
    have haccount := h.account
    rw [hout, List.length_cons] at hlen
    rw [places, hout, ← Multiset.cons_coe, ← Multiset.singleton_add] at haccount
    refine ⟨h.cur, h.hand, h.drain, h.full, h.stalled, ?_, fun fb' hpc => ?_, ?_⟩
    · dsimp only
      omega
    · exact absurd (hout.symm.trans (h.push fb' hpc)) nofun
    · refine Eq.trans haccount ?_
      unfold places
      dsimp only
      rw [← Multiset.cons_coe, ← Multiset.singleton_add]
      abel

theorem espCameraFbReturn_ring (h : Ring c d lost) (fb : ℕ) :
    Ring c (espCameraFbReturn c d fb) lost := by
  unfold espCameraFbReturn
  rw [if_neg hc.ne']
  split
  · rename_i hgive
    have haccount := h.account
    have hheld : (d.held : Multiset ℕ) = fb ::ₘ ↑(d.held.erase fb) := by
      rw [← Multiset.coe_erase]
      exact (Multiset.cons_erase hgive.1).symm
    rw [places, hheld, ← Multiset.singleton_add] at haccount
    refine ⟨h.cur, h.hand, h.drain, h.full, h.stalled, h.out, h.push, ?_⟩
    refine Eq.trans haccount ?_
    unfold places
    dsimp only
    rw [← Multiset.coe_add, Multiset.coe_singleton]
    abel
  · exact h

theorem ring_step (h : Ring c d lost) (e : CameraEvent) :
    Ring c (d.step c e) (noteLost lost d e) := by
  cases e with
  | filter => exact filterStep_ring h
  | get => exact espCameraFbGet_ring hc h
  | giveBack fb => exact espCameraFbReturn_ring hc h fb
  | dma data | vsync data | call | start | noVsync | timeout =>
    exact (bus_same c d _ (by trivial)).ring h

theorem init_ring : Ring c c.init [] := by
  refine ⟨by unfold CameraConf.init; dsimp only; omega, nofun, nofun, nofun, nofun, Nat.zero_le 1,
    nofun, ?_⟩
  have hnone : referenced c c.init = ∅ := by
    apply Finset.filter_eq_empty_iff.mpr
    intro i _
    exact nofun
  rw [hnone]
  rfl

theorem ring_run (es : List CameraEvent) :
    Ring c (run (observe (step c) noteLost) (c.init, []) es).1
      (run (observe (step c) noteLost) (c.init, []) es).2 :=
  run_invariant (I := fun w : CameraDriver × List ℕ => Ring c w.1 w.2)
    (fun _ e hw => ring_step hc hw e) (init_ring hc) es

end Several

end Places

end EspMesh
