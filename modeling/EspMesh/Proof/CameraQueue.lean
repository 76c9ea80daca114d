import EspMesh.Proof.CameraSizes
import EspMesh.Proof.CameraUsers

/-! # The pieces that wait for the filter task

The sensor sends pictures piece by piece. What waits in `data_ready` is read as the rest of the
picture in the frame that is being filled, then the following ones; an interrupt appends to it or
leaves a piece out where it is dropped anyway.
-/

namespace EspMesh
set_option autoImplicit false
open ByteMem Mem StepRuns CameraDriver

/-! ## What the sensor has sent -/

abbrev Piece := ℕ → DmaElem

/-- The pieces of the picture that has not ended, the pictures that have, and whether a user has
waited in vain. -/
structure Sensor where
  current : List Piece
  done : List (List Piece)
  cut : Bool

def Sensor.note (s : Sensor) (_ : CameraDriver) : CameraEvent → Sensor
  | .dma data => { s with current := s.current ++ [data] }
  | .vsync data => { s with current := [], done := s.done ++ [s.current ++ [data]] }
  | .timeout => { s with cut := true }
  | _ => s

def Sensor.start : Sensor := ⟨[], [], false⟩

def Sensor.pictures (s : Sensor) : List (List Piece) := s.current :: s.done

def pieceBytes (c : CameraConf) (x : Piece) : List UInt8 := c.dmaFilter x c.dmaLength

/-- The piece starts like a JPEG. -/
def BeginsJpeg (c : CameraConf) (x : Piece) : Prop := (pieceBytes c x).take 3 = [0xff, 0xd8, 0xff]

/-- Within the pictures of the sensor no other piece starts like a JPEG. -/
def OnlyFirstStarts (c : CameraConf) (s : Sensor) : CameraEvent → Prop
  | .dma data | .vsync data => BeginsJpeg c data → s.current = []
  | _ => True

/-- The filter task keeps up: no buffer is filled that still waits for it, the ends of pictures
find room, and no piece is left out behind an end that it has not come to. -/
def KeepsUp (d : CameraDriver) : CameraEvent → Prop
  | .dma _ => some d.dmaDescCur ∉ d.dataReady ∧
    (d.pc = .ready ∧ none ∉ d.dataReady ∨
      d.dataReady.length < 16 ∧ (d.frame.ref = true ∨ d.frame.bad = false))
  | .vsync _ => some d.dmaDescCur ∉ d.dataReady ∧ d.dataReady.length + 1 < 16 ∧
    (d.pc = .ready ∧ none ∉ d.dataReady ∨ d.frame.ref = true ∨ d.frame.bad = false)
  | .timeout => d.dataReady.length < 16
  | _ => True

instance (d : CameraDriver) : ∀ e : CameraEvent, Decidable (KeepsUp d e)
  | .dma _ => inferInstanceAs (Decidable (_ ∧ (_ ∧ _ ∨ _ ∧ (_ ∨ _))))
  | .vsync _ => inferInstanceAs (Decidable (_ ∧ _ ∧ (_ ∧ _ ∨ _ ∨ _)))
  | .timeout => inferInstanceAs (Decidable (_ < _))
  | .filter | .call | .start | .noVsync | .get | .giveBack _ => inferInstanceAs (Decidable True)

instance (c : CameraConf) (x : Piece) : Decidable (BeginsJpeg c x) :=
  inferInstanceAs (Decidable (_ = _))

instance (c : CameraConf) (s : Sensor) : ∀ e : CameraEvent, Decidable (OnlyFirstStarts c s e)
  | .dma _ | .vsync _ => inferInstanceAs (Decidable (_ → _ = _))
  | .filter | .call | .start | .noVsync | .get | .timeout | .giveBack _ =>
    inferInstanceAs (Decidable True)

/-! ## What a frame has -/

/-- The first `n` pieces of `picture`, and nothing else, are in the frame. -/
structure Filled (c : CameraConf) (picture : List Piece) (n : ℕ) (f : FrameBuffer) : Prop where
  some : 0 < n
  enough : n ≤ picture.length
  bytes : f.buf.load 0 (n * c.bufLen) = (picture.take n).flatMap (pieceBytes c)
  starts : f.buf.load 0 3 = [0xff, 0xd8, 0xff]
  format : f.format = .jpeg
  size : (f.width, f.height) = c.resolution
  inside : n * c.bufLen ≤ c.fbSize

/-- The frame has a picture of the sensor: all of it, or as many pieces as there is room for, or
what had come when a user had waited in vain. -/
def Shot (c : CameraConf) (s : Sensor) (f : FrameBuffer) : Prop :=
  ∃ picture ∈ s.pictures, ∃ n, Filled c picture n f ∧ f.len = jpegLen f.buf (n * c.bufLen) ∧
    (s.cut = false → picture ∈ s.done ∧ (n = picture.length ∨ c.fbSize < (n + 1) * c.bufLen))

/-! ## What waits for the filter task -/

/-- The task drops the next piece, or starts a picture with it if it can, or appends it to those
of the picture that it has seen. -/
inductive Phase
  | drops
  | starts
  | follows (seen : List Piece)

namespace Phase

def next (c : CameraConf) (x : Piece) : Phase → Phase
  | .drops => .drops
  | .starts => if BeginsJpeg c x then .follows [x] else .drops
  | .follows seen => .follows (seen ++ [x])

/-- There is nothing more that waits. -/
def Open (s : Sensor) (received : ℕ) : Phase → Prop
  | .follows seen => seen = s.current ∧ 0 < received
  | _ => True

/-- The end of a picture is next. -/
def Ends (s : Sensor) : Phase → Prop
  | .follows seen => (∃ picture ∈ s.pictures, seen <+: picture) ∧ (s.cut = false → seen ∈ s.done)
  | _ => True

end Phase

/-- In this phase, the queue goes on with the picture that has been begun. -/
def Feeds (c : CameraConf) (s : Sensor) (received : ℕ) (buf : ℕ → Piece) :
    Phase → List (Option ℕ) → Prop
  | p, [] => p.Open s received
  | p, none :: q => p.Ends s ∧ Feeds c s received buf .starts q
  | p, some idx :: q => Feeds c s received buf (p.next c (buf idx)) q

section Queue
variable {c : CameraConf} {s s' : Sensor} {received received' : ℕ} {buf buf' : ℕ → Piece}
  {p : Phase} {q tail : List (Option ℕ)}

theorem Feeds.append (hends : ∀ p : Phase, p.Ends s → p.Ends s')
    (hopen : ∀ p : Phase, p.Open s received → Feeds c s' received' buf' p tail)
    (hbuf : ∀ idx, some idx ∈ q → buf' idx = buf idx) (h : Feeds c s received buf p q) :
    Feeds c s' received' buf' p (q ++ tail) := by
  induction q generalizing p with
  | nil => exact hopen p h
  | cons item q ih =>
    have hbehind : ∀ idx, some idx ∈ q → buf' idx = buf idx :=
      fun idx hidx => hbuf idx (List.mem_cons_of_mem _ hidx)
    cases item with
    | none => exact ⟨hends p h.1, ih hbehind h.2⟩
    | some idx =>
      rw [List.cons_append, Feeds, hbuf idx List.mem_cons_self]
      exact ih hbehind h

theorem Feeds.drops (h : Feeds c s received buf p q) : Feeds c s received buf .drops q := by
  induction q generalizing p with
  | nil => trivial
  | cons item q ih =>
    cases item with
    | none => exact ⟨trivial, h.2⟩
    | some idx => exact ih h

/-- Without an end, everything that waits is dropped. -/
theorem feeds_drops (hq : none ∉ q) (h : Feeds c s received buf .drops tail) :
    Feeds c s received buf .drops (q ++ tail) := by
  induction q with
  | nil => exact h
  | cons item q ih =>
    cases item with
    | none => exact absurd List.mem_cons_self hq
    | some idx => exact ih fun hmem => hq (List.mem_cons_of_mem _ hmem)

end Queue

/-! ## What the sensor sends later -/

section Later
variable {c : CameraConf} {s : Sensor} {d : CameraDriver}

/-- A picture may become longer. -/
theorem pictures_note {picture : List Piece} (h : picture ∈ s.pictures) (e : CameraEvent) :
    ∃ later ∈ (s.note d e).pictures, picture <+: later := by
  have hcons := List.mem_cons.mp h
  cases e with
  | dma data =>
    obtain rfl | hdone := hcons
    · exact ⟨_, List.mem_cons_self, List.prefix_append _ _⟩
    · exact ⟨picture, List.mem_cons_of_mem _ hdone, List.prefix_rfl⟩
  | vsync data =>
    obtain rfl | hdone := hcons
    · exact ⟨_, List.mem_cons_of_mem _ (List.mem_append_right _ List.mem_cons_self),
        List.prefix_append _ _⟩
    · exact ⟨picture, List.mem_cons_of_mem _ (List.mem_append_left _ hdone), List.prefix_rfl⟩
  | filter | call | start | noVsync | get | timeout | giveBack fb =>
    exact ⟨picture, h, List.prefix_rfl⟩

theorem done_note {picture : List Piece} (h : picture ∈ s.done) (e : CameraEvent) :
    picture ∈ (s.note d e).done := by
  cases e with
  | vsync data => exact List.mem_append_left _ h
  | filter | dma data | call | start | noVsync | get | timeout | giveBack fb => exact h

theorem cut_note (e : CameraEvent) (h : (s.note d e).cut = false) : s.cut = false := by
  cases e with
  | timeout => cases h
  | filter | dma data | vsync data | call | start | noVsync | get | giveBack fb => exact h

theorem Phase.Ends.note {p : Phase} (h : p.Ends s) (e : CameraEvent) : p.Ends (s.note d e) := by
  cases p with
  | drops | starts => trivial
  | follows seen =>
    obtain ⟨⟨picture, hpicture, hprefix⟩, hdone⟩ := h
    obtain ⟨later, hlater, hlonger⟩ := pictures_note hpicture e
    exact ⟨⟨later, hlater, hprefix.trans hlonger⟩,
      fun hcut => done_note (hdone (cut_note e hcut)) e⟩

theorem Filled.longer {picture later : List Piece} {n : ℕ} {f : FrameBuffer}
    (h : Filled c picture n f) (hlater : picture <+: later) : Filled c later n f := by
  obtain ⟨rest, rfl⟩ := hlater
  have henough := h.enough
  refine ⟨h.some, ?_, ?_, h.starts, h.format, h.size, h.inside⟩
  · rw [List.length_append]
    omega
  · rw [h.bytes, List.take_append_of_le_length henough]

theorem Shot.note {f : FrameBuffer} (h : Shot c s f) (e : CameraEvent) : Shot c (s.note d e) f := by
  obtain ⟨picture, hpicture, n, hfilled, hlen, hwhole⟩ := h
  cases hcut : (s.note d e).cut with
  | false =>
    obtain ⟨hdone, hall⟩ := hwhole (cut_note e hcut)
    have hlater := done_note (d := d) hdone e
    exact ⟨picture, List.mem_cons_of_mem _ hlater, n, hfilled, hlen, fun _ => ⟨hlater, hall⟩⟩
  | true =>
    obtain ⟨later, hlater, hlonger⟩ := pictures_note hpicture e
    exact ⟨later, hlater, n, hfilled.longer hlonger, hlen,
      fun h => absurd (hcut.symm.trans h) nofun⟩

end Later

/-! ## The bus -/

/-- With more than one frame the bus is never stopped again. -/
structure Running (d : CameraDriver) : Prop where
  started : d.rxStart = true
  nobody : d.starting = 0

section Bus
variable {c : CameraConf} {d d' : CameraDriver}

theorem i2sStop_several (hc : 1 < c.fbCount) :
    i2sStop c d = ({ d with dmaReceivedCount := 0 }.dataReadySend none).1 := by
  unfold i2sStop
  rw [if_neg fun hone => hc.ne' hone.1]

theorem vsyncIsr_several (hc : 1 < c.fbCount) :
    vsyncIsr c d =
      let d := if d.dmaReceivedCount > 0 then i2sStop c (signalDmaBufReceived c d) else d
      { d with
        dmaDescCur := (d.dmaDescCur + 1) % c.dmaDescCount
        dmaReceivedCount := 0
        rxStart := true } := by
  have hdone : vsyncFrameDone c d =
      if d.dmaReceivedCount > 0 then i2sStop c (signalDmaBufReceived c d) else d := by
    unfold vsyncFrameDone
    dsimp only
    rw [if_pos (c := _ ∨ _ ∨ _) (.inr (.inr hc))]
  unfold vsyncIsr
  dsimp only
  rw [if_pos (.inl hc), hdone]

theorem LeavesUsers.bus (h : LeavesUsers d d') (hrun : Running d) : Running d' :=
  ⟨h.running hrun.started, h.starting.trans hrun.nobody⟩

theorem Running.dataReadySend (h : Running d) (item : Option ℕ) :
    Running (d.dataReadySend item).1 := by
  unfold CameraDriver.dataReadySend
  split <;> exact ⟨h.started, h.nobody⟩

theorem Running.signalDmaBufReceived (h : Running d) : Running (signalDmaBufReceived c d) := by
  unfold CameraDriver.signalDmaBufReceived
  dsimp only
  split
  · exact ⟨h.started, h.nobody⟩
  · have hsent := Running.dataReadySend (d := { d with
      dmaDescCur := (d.dmaDescCur + 1) % c.dmaDescCount
      dmaReceivedCount := d.dmaReceivedCount + 1 }) ⟨h.started, h.nobody⟩ (some d.dmaDescCur)
    split <;> exact ⟨hsent.started, hsent.nobody⟩

theorem Running.i2sStop (hc : 1 < c.fbCount) (h : Running d) : Running (i2sStop c d) := by
  rw [i2sStop_several hc]
  exact Running.dataReadySend (d := { d with dmaReceivedCount := 0 }) ⟨h.started, h.nobody⟩ none

theorem Running.step (hc : 1 < c.fbCount) (h : Running d) (e : CameraEvent) :
    Running (d.step c e) := by
  unfold CameraDriver.step
  cases e with
  | filter => exact (filterStep_leaves c d).bus h
  | dma data =>
    have hsignal := Running.signalDmaBufReceived (c := c) (d := d.dmaFill data)
      ⟨h.started, h.nobody⟩
    dsimp only
    rw [if_pos h.started]
    unfold i2sIsr
    dsimp only
    split
    · exact hsignal.i2sStop hc
    · exact hsignal
  | vsync data =>
    have hsignal := Running.signalDmaBufReceived (c := c) (d := d.dmaFill data)
      ⟨h.started, h.nobody⟩
    dsimp only
    split
    · rw [vsyncIsr_several hc]
      refine ⟨rfl, ?_⟩
      dsimp only
      split
      · exact (hsignal.i2sStop hc).nobody
      · exact h.nobody
    · exact h
  | call =>
    dsimp only
    rw [if_pos h.started]
    exact h
  | start =>
    dsimp only
    rw [if_pos h.nobody]
    exact h
  | noVsync => exact ⟨h.started, congrArg (· - 1) h.nobody⟩
  | get =>
    dsimp only
    unfold espCameraFbGet
    rw [if_neg hc.ne']
    split <;> exact ⟨h.started, h.nobody⟩
  | timeout => exact h.i2sStop hc
  | giveBack fb =>
    dsimp only
    unfold espCameraFbReturn
    rw [if_neg hc.ne']
    split <;> exact ⟨h.started, h.nobody⟩

end Bus

/-! ## The frame that is being filled -/

/-- The frame has what has been seen of its picture, as far as there is room. -/
structure Filling (c : CameraConf) (d : CameraDriver) (seen : List Piece) : Prop where
  filled : Filled c seen d.dmaFilteredCount d.frame
  all : d.dmaFilteredCount = seen.length ∨ c.fbSize < (d.dmaFilteredCount + 1) * c.bufLen

inductive InPhase (c : CameraConf) (d : CameraDriver) : Phase → Prop
  | between (h : d.pc ≠ .ready) : InPhase c d .starts
  | drops (hpc : d.pc = .ready) (h : d.frame.ref = true ∨ d.frame.bad = true) :
    InPhase c d .drops
  | starts (hpc : d.pc = .ready) (href : d.frame.ref = false) (hbad : d.frame.bad = false)
    (h : d.dmaFilteredCount = 0) : InPhase c d .starts
  | follows (seen : List Piece) (hpc : d.pc = .ready) (href : d.frame.ref = false)
    (hbad : d.frame.bad = false) (h : Filling c d seen) : InPhase c d (.follows seen)

/-- Every frame with a reference has a picture, and the queue goes on with the one in the frame
that is being filled. -/
structure Imaged (c : CameraConf) (d : CameraDriver) (s : Sensor) : Prop where
  feeds : ∃ p, InPhase c d p ∧ Feeds c s d.dmaReceivedCount d.dmaBuf p d.dataReady
  shots : ∀ i, (d.frames i).ref = true → Shot c s (d.frames i)

section Interrupts
variable {c : CameraConf} {s : Sensor} {d d' : CameraDriver}

/-- Without a new mark the phase is the same. -/
theorem InPhase.same {p : Phase} (h : InPhase c d p) (hpc : d'.pc = d.pc)
    (hframe : d'.frame = d.frame) (hcount : d'.dmaFilteredCount = d.dmaFilteredCount) :
    InPhase c d' p := by
  cases h with
  | between h => exact .between (hpc ▸ h)
  | drops hready h => exact .drops (hpc.trans hready) (hframe ▸ h)
  | starts hready href hbad h =>
    exact .starts (hpc.trans hready) (hframe ▸ href) (hframe ▸ hbad) (hcount.trans h)
  | follows seen hready href hbad h =>
    refine .follows seen (hpc.trans hready) (hframe ▸ href) (hframe ▸ hbad) ⟨?_, ?_⟩
    · rw [hcount, hframe]
      exact h.filled
    · rw [hcount]
      exact h.all

theorem shots_of_kept (hshots : ∀ i, (d.frames i).ref = true → Shot c s (d.frames i))
    (hkept : ∀ i, (d'.frames i).ref = true → d'.frames i = d.frames i) (i : ℕ)
    (hi : (d'.frames i).ref = true) : Shot c s (d'.frames i) := by
  have hsame := hkept i hi
  rw [hsame] at hi ⊢
  exact hshots i hi

theorem Imaged.shots_kept (h : Imaged c d s) (e : CameraEvent)
    (hkept : ∀ i, (d'.frames i).ref = true → d'.frames i = d.frames i) :
    ∀ i, (d'.frames i).ref = true → Shot c (s.note d e) (d'.frames i) :=
  shots_of_kept (fun i hi => (h.shots i hi).note e) hkept

theorem SameHolders.shots (h : SameHolders d d') (i : ℕ) (hi : (d'.frames i).ref = true) :
    d'.frames i = d.frames i :=
  h.kept i ((h.ref i).symm.trans hi)

/-- What an interrupt does with the piece in the current buffer: it waits for the filter task, or
is left out. -/
structure Signalled (d r : CameraDriver) (data : Piece) : Prop where
  same : SameHolders d r
  buf : r.dmaBuf = Function.update d.dmaBuf d.dmaDescCur data
  received : r.dmaReceivedCount = d.dmaReceivedCount + 1
  filtered : r.dmaFilteredCount = d.dmaFilteredCount
  queue : r.dataReady = d.dataReady ++ [some d.dmaDescCur] ∧ r.frame = d.frame ∨
    ¬ (d.dataReady.length < 16 ∧ (d.frame.ref = true ∨ d.frame.bad = false)) ∧
      r.dataReady = d.dataReady ∧ (r.frame.ref = true ∨ r.frame.bad = true)

theorem signalled (c : CameraConf) (d : CameraDriver) (data : Piece) :
    Signalled d (signalDmaBufReceived c (d.dmaFill data)) data := by
  have hfill : SameHolders d (d.dmaFill data) := (SameHolders.refl d).with_dma ..
  have hsame := hfill.trans (signalDmaBufReceived_same c (d.dmaFill data))
  have hleft : d.frame.ref = false → d.frame.bad = true →
      ¬ (d.dataReady.length < 16 ∧ (d.frame.ref = true ∨ d.frame.bad = false)) := by
    intro href hbad hsent
    rw [href, hbad] at hsent
    obtain ⟨-, h | h⟩ := hsent <;> cases h
  revert hsame
  unfold signalDmaBufReceived dataReadySend
  dsimp only
  split
  · rename_i hskip
    intro hsame
    rw [Bool.and_eq_true, Bool.not_eq_true'] at hskip
    exact ⟨hsame, rfl, rfl, rfl, .inr ⟨hleft hskip.1 hskip.2, rfl, .inr hskip.2⟩⟩
  · split
    · split
      · rename_i hsent
        cases hsent
      · intro hsame
        exact ⟨hsame, rfl, rfl, rfl, .inl ⟨rfl, rfl⟩⟩
    · rename_i hfull
      split
      · intro hsame
        refine ⟨hsame, rfl, rfl, rfl, .inr ⟨fun h => hfull h.1, rfl, .inr ?_⟩⟩
        unfold frame CameraDriver.setFrame
        dsimp only
        rw [Function.update_self]
      · rename_i href
        intro hsame
        rw [Bool.not_false, Bool.true_and, Bool.not_eq_true', Bool.not_eq_false] at href
        exact ⟨hsame, rfl, rfl, rfl, .inr ⟨fun h => hfull h.1, rfl, .inl href⟩⟩

theorem i2sStop_room (hc : 1 < c.fbCount) (h : d.dataReady.length < 16) :
    i2sStop c d = { d with dmaReceivedCount := 0, dataReady := d.dataReady ++ [none] } := by
  rw [i2sStop_several hc]
  unfold dataReadySend
  rw [if_pos h]

theorem Signalled.drops {r : CameraDriver} {data : Piece} (h : Signalled d r data)
    (hpc : d.pc = .ready) (hout : r.frame.ref = true ∨ r.frame.bad = true) : InPhase c r .drops :=
  .drops (h.same.pc.trans hpc) hout

theorem Signalled.phase {r : CameraDriver} {data : Piece} {p : Phase} (h : Signalled d r data)
    (hp : InPhase c d p) (hframe : r.frame = d.frame) : InPhase c r p :=
  hp.same h.same.pc hframe h.filtered

/-- The buffers that wait are left alone. -/
theorem update_waiting {buf : ℕ → Piece} {cur : ℕ} {q : List (Option ℕ)} (data : Piece)
    (h : some cur ∉ q) (idx : ℕ) (hidx : some idx ∈ q) :
    Function.update buf cur data idx = buf idx := by
  apply Function.update_of_ne
  intro heq
  exact h (heq ▸ hidx)

/-- A piece is appended to the picture that has been begun, or begins one. -/
theorem Phase.next_open {p : Phase} {x : Piece} {received : ℕ} (h : p.Open s received)
    (hfirst : BeginsJpeg c x → s.current = []) :
    p.next c x = .drops ∨ p.next c x = .follows (s.current ++ [x]) := by
  cases p with
  | drops => exact .inl rfl
  | starts =>
    rw [next]
    by_cases hstarts : BeginsJpeg c x
    · rw [if_pos hstarts, hfirst hstarts]
      exact .inr rfl
    · rw [if_neg hstarts]
      exact .inl rfl
  | follows seen =>
    right
    rw [next, h.1]

section Jpeg
variable (hc : 1 < c.fbCount) (hjpeg : c.pixelFormat = .jpeg) (hrun : Running d)

include hjpeg hrun in
theorem dma_imaged (h : Imaged c d s) (data : Piece)
    (hup : KeepsUp d (.dma data)) (hfirst : OnlyFirstStarts c s (.dma data)) :
    Imaged c (d.step c (.dma data)) (s.note d (.dma data)) := by
  have hstep : d.step c (.dma data) = signalDmaBufReceived c (d.dmaFill data) := by
    unfold step i2sIsr
    dsimp only
    rw [if_pos hrun.started, if_neg fun hend => hend.1 hjpeg]
  obtain ⟨hcur, hroom⟩ := hup
  obtain ⟨p, hphase, hfeeds⟩ := h.feeds
  rw [hstep]
  have hsignal := signalled c d data
  refine ⟨?_, h.shots_kept _ hsignal.same.shots⟩
  obtain ⟨hqueue, hframe⟩ | ⟨hleft, hqueue, hout⟩ := hsignal.queue
  · refine ⟨p, hsignal.phase hphase hframe, ?_⟩
    rw [hqueue, hsignal.received, hsignal.buf]
    refine hfeeds.append (fun p hp => hp.note _) (fun p hopen => ?_) (update_waiting data hcur)
    rw [Feeds, Feeds, Function.update_self]
    obtain hnext | hnext := Phase.next_open hopen hfirst
    · rw [hnext]
      trivial
    · rw [hnext]
      exact ⟨rfl, Nat.succ_pos _⟩
  · obtain ⟨hpc, hnone⟩ := hroom.resolve_right hleft
    refine ⟨.drops, hsignal.drops hpc hout, ?_⟩
    rw [hqueue, ← List.append_nil d.dataReady]
    exact feeds_drops hnone trivial

include hc hjpeg hrun in
theorem vsync_imaged (h : Imaged c d s) (data : Piece)
    (hup : KeepsUp d (.vsync data)) (hfirst : OnlyFirstStarts c s (.vsync data)) :
    Imaged c (d.step c (.vsync data)) (s.note d (.vsync data)) := by
  have hstep : d.step c (.vsync data) = vsyncIsr c (d.dmaFill data) := by
    unfold step
    dsimp only
    rw [if_pos ⟨hrun.started, hjpeg⟩]
  obtain ⟨hcur, hlen, hroom⟩ := hup
  obtain ⟨p, hphase, hfeeds⟩ := h.feeds
  rw [hstep, vsyncIsr_several hc]
  dsimp only
  split
  · have hsignal := signalled c d data
    have hlen' : (signalDmaBufReceived c (d.dmaFill data)).dataReady.length < 16 := by
      obtain ⟨hqueue, -⟩ | ⟨-, hqueue, -⟩ := hsignal.queue
      · rw [hqueue, List.length_append, List.length_singleton]
        exact hlen
      · rw [hqueue]
        omega
    rw [i2sStop_room hc hlen']
    refine ⟨?_, h.shots_kept _ hsignal.same.shots⟩
    dsimp only
    obtain ⟨hqueue, hframe⟩ | ⟨hleft, hqueue, hout⟩ := hsignal.queue
    · refine ⟨p, (hsignal.phase hphase hframe).same rfl rfl rfl, ?_⟩
      rw [hqueue, hsignal.buf, List.append_assoc]
      refine hfeeds.append (fun p hp => hp.note _) (fun p hopen => ?_) (update_waiting data hcur)
      rw [List.singleton_append, Feeds, Feeds, Function.update_self]
      refine ⟨?_, trivial⟩
      obtain hnext | hnext := Phase.next_open hopen hfirst
      · rw [hnext]
        trivial
      · rw [hnext]
        have hdone : s.current ++ [data] ∈ (s.note d (.vsync data)).done :=
          List.mem_append_right _ List.mem_cons_self
        exact ⟨⟨_, List.mem_cons_of_mem _ hdone, List.prefix_rfl⟩, fun _ => hdone⟩
    · obtain ⟨hpc, hnone⟩ := hroom.resolve_right fun hsent => hleft ⟨by omega, hsent⟩
      refine ⟨.drops, (hsignal.drops hpc hout).same rfl rfl rfl, ?_⟩
      rw [hqueue]
      exact feeds_drops hnone ⟨trivial, trivial⟩
  · rename_i hreceived
    refine ⟨⟨p, hphase.same rfl rfl rfl, ?_⟩, h.shots_kept _ fun _ _ => rfl⟩
    have hzero : d.dmaReceivedCount = 0 := Nat.eq_zero_of_not_pos hreceived
    rw [hzero] at hfeeds
    have happend : Feeds c (s.note d (.vsync data)) 0 (Function.update d.dmaBuf d.dmaDescCur data)
        p (d.dataReady ++ []) := by
      refine hfeeds.append (fun p hp => hp.note _) (fun p hopen => ?_) (update_waiting data hcur)
      cases p with
      | drops | starts => trivial
      | follows seen => exact absurd hopen.2 (Nat.lt_irrefl 0)
    rw [List.append_nil] at happend
    exact happend

include hc in
theorem timeout_imaged (h : Imaged c d s) (hup : KeepsUp d .timeout) :
    Imaged c (d.step c .timeout) (s.note d .timeout) := by
  have hstep : d.step c .timeout =
      { d with dmaReceivedCount := 0, dataReady := d.dataReady ++ [none] } :=
    i2sStop_room hc hup
  obtain ⟨p, hphase, hfeeds⟩ := h.feeds
  rw [hstep]
  refine ⟨⟨p, hphase.same rfl rfl rfl, ?_⟩, h.shots_kept _ fun _ _ => rfl⟩
  refine hfeeds.append (fun p hp => hp.note _) (fun p hopen => ?_) fun _ _ => rfl
  refine ⟨?_, trivial⟩
  cases p with
  | drops | starts => trivial
  | follows seen =>
    refine ⟨⟨s.current, List.mem_cons_self, ?_⟩, nofun⟩
    rw [hopen.1]

end Jpeg

end Interrupts

end EspMesh
