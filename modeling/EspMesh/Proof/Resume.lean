import EspMesh.Proof.SavedRecord

/-! # What a device goes on with after a reset

What is read back is what was saved, and the missing packets complete the firmware, as long as no
record is saved with a mark in the part of its progress array that is not saved.
-/

namespace EspMesh
set_option autoImplicit false
set_option maxRecDepth 20000
open ByteMem NorFlash StepRuns

/-- What a reset now would leave to go on with: the state as it was saved, with sizes that add up,
so that the missing packets complete the firmware. -/
structure Resumes (c : SendCall) (w : UpgradeNode × Option MupgradeConfig) : Prop where
  same : ∀ g, w.1.info = some g → ∃ k, w.2 = some k ∧ SameProgress g k
  written : ∀ g, w.1.info = some g →
    g.status.writtenSize = Blocks.sizes mupgradePacketMaxSize c.totalSize g.bit
  completes : ∀ g, w.1.info = some g → ∀ sent : List (WriteEnv × MupgradePacket),
    (∀ s ∈ sent, s.1.loaded = true ∧ s.1.partitionWrite = none ∧ c.Has s.2) →
    (∀ i < c.packetNum, g.bit i = false → ∃ s ∈ sent, s.2.seq = i) →
    ∃ g', (run nodeStep w.1.reset (sent.map fun s => .data s.1 s.2)).record true = some g' ∧
      g'.status.writtenSize = c.totalSize

section Steps
variable {c : SendCall} {name : Bytes 32} {n : UpgradeNode} {g : MupgradeConfig}

/-- A record that is read back as it was has been saved as a whole. -/
theorem event_savesWhole (w : UpgradeNode × Option MupgradeConfig) (e : NodeEvent)
    (h : Resumes c (observe nodeEvent noteSave w e)) : SavesWhole w e := by
  obtain ⟨n, kept⟩ := w
  cases e with
  | msg msg =>
    cases msg with
    | status e status => trivial
    | data e packet =>
      intro g hrecord hsave hopen
      obtain ⟨hinfo, hnote⟩ := data_saves hrecord hsave hopen kept
      obtain ⟨k, hk, hsame⟩ := h.same _ hinfo
      rw [observe, hnote] at hk
      cases hk
      exact (tailClear_iff _).mpr hsame.bits
  | reset => trivial
  | cut e packet =>
    intro g hrecord hsave
    have hrecord' : n.record e.loaded = some g := hrecord
    have hsave' : SavesWith e packet g n := hsave
    rw [cut_some hrecord', if_pos hsave'] at h
    obtain ⟨k, hk, hsame⟩ := h.same _ rfl
    cases hk
    exact (tailClear_iff _).mpr hsame.bits

/-! ## The missing packets -/

theorem reset_record (h : n.info = some g) : n.reset.record true = some g := by
  simp [UpgradeNode.record, UpgradeNode.reset, UpgradeNode.boot, h]

section Resent
variable (hmax : c.totalSize ≤ mupgradePacketMaxNum * mupgradePacketMaxSize)
include hmax

theorem Accounted.refuses_iff {packet : MupgradePacket} (hg : Accounted c name g)
    (hpacket : c.Has packet) : g.refuses packet ↔ g.bit packet.seq = true := by
  have hseq := hpacket.1
  rw [packetNum_eq hmax, Blocks.lt_num_iff (by decide)] at hseq
  have htotal : g.status.totalSize = c.totalSize := congrArg Prod.snd hg.firmware
  have hinside : ¬ packet.seq * mupgradePacketMaxSize > g.status.totalSize := by omega
  rw [MupgradeConfig.refuses, or_iff_right hg.notStopped, or_iff_right hinside]
  rfl

/-- A packet that is sent again is marked then. -/
theorem resent_step {e : WriteEnv} {packet : MupgradePacket} (hloaded : e.loaded = true)
    (hwrite : e.partitionWrite = none) (hpacket : c.Has packet) (hg : Accounted c name g)
    (hrecord : n.record true = some g) : ∃ g',
      (nodeStep n (.data e packet)).record true = some g' ∧ Accounted c name g' ∧
        ∀ i, g'.bit i = (g.bit i || decide (packet.seq = i)) := by
  rw [← hloaded] at hrecord
  obtain ⟨g', hconfig, ⟨rfl, hrefuses⟩ | ⟨hgoes, hcounted⟩⟩ :=
    data_config packet hrecord (hg.not_empty hmax hpacket) hg.notStopped
  · have hset : g'.bit packet.seq = true := by
      refine (hg.refuses_iff hmax hpacket).mp (hrefuses.resolve_right ?_)
      simp [hwrite]
    refine ⟨g', record_of_config hconfig true, hg, fun i => ?_⟩
    by_cases hi : packet.seq = i
    · rw [← hi, hset, Bool.true_or]
    · rw [decide_eq_false hi, Bool.or_false]
  · exact ⟨g', record_of_config hconfig true,
      counting_accounted hmax hpacket hg hgoes hcounted, hcounted.bit⟩

theorem resent_bits {sent : List (WriteEnv × MupgradePacket)}
    (hsent : ∀ s ∈ sent, s.1.loaded = true ∧ s.1.partitionWrite = none ∧ c.Has s.2)
    (hg : Accounted c name g) (hrecord : n.record true = some g) : ∃ g',
      (run nodeStep n (sent.map fun s => .data s.1 s.2)).record true = some g' ∧
        Accounted c name g' ∧
        ∀ i, g.bit i = true ∨ (∃ s ∈ sent, s.2.seq = i) → g'.bit i = true := by
  induction sent generalizing n g with
  | nil => exact ⟨g, hrecord, hg, fun i hi => hi.resolve_right (by simp)⟩
  | cons s sent ih =>
    obtain ⟨hs, hsent⟩ := List.forall_mem_cons.mp hsent
    obtain ⟨g₁, hrecord₁, hg₁, hbit⟩ := resent_step hmax hs.1 hs.2.1 hs.2.2 hg hrecord
    obtain ⟨g', hrecord', hg', hbits⟩ := ih hsent hg₁ hrecord₁
    refine ⟨g', hrecord', hg', fun i hi => hbits i ?_⟩
    rw [hbit, Bool.or_eq_true, decide_eq_true_eq]
    rcases hi with hi | ⟨t, ht, rfl⟩
    · exact .inl (.inl hi)
    · rcases List.mem_cons.mp ht with rfl | ht
      · exact .inl (.inr rfl)
      · exact .inr ⟨t, ht, rfl⟩

/-- The missing packets complete the firmware. -/
theorem resent_completes {sent : List (WriteEnv × MupgradePacket)}
    (hsent : ∀ s ∈ sent, s.1.loaded = true ∧ s.1.partitionWrite = none ∧ c.Has s.2)
    (hg : Accounted c name g) (hrecord : n.record true = some g)
    (hmissing : ∀ i < c.packetNum, g.bit i = false → ∃ s ∈ sent, s.2.seq = i) : ∃ g',
      (run nodeStep n (sent.map fun s => .data s.1 s.2)).record true = some g' ∧
        g'.status.writtenSize = c.totalSize := by
  obtain ⟨g', hrecord', hg', hbits⟩ := resent_bits hmax hsent hg hrecord
  refine ⟨g', hrecord', hg'.written.trans ((Blocks.sizes_eq_iff (by decide) _).mpr ?_)⟩
  intro i hi
  rw [← packetNum_eq hmax] at hi
  apply hbits i
  cases hbit : g.bit i with
  | true => exact .inl rfl
  | false => exact .inr (hmissing i hi hbit)

theorem RecordKept.resumes {w : UpgradeNode × Option MupgradeConfig} (h : RecordKept c name w) :
    Resumes c w where
  same g hg := (h.info g hg).2
  written g hg := (h.info g hg).1.written
  completes g hg _ hsent hmissing :=
    resent_completes hmax hsent (h.info g hg).1 (reset_record hg) hmissing

end Resent

end Steps

/-! ## Every run with resets -/

/-- **Resumption.** However the requests for a firmware, its packets and the resets follow each
other, what is read back is what was saved, adds up and can be completed, exactly when every save
that is not at once erased is one of a record whose marks are among the first 3968. -/
theorem resumes_with_what_was_saved (c : SendCall) (name : Bytes 32) (flash : ℕ → Flash)
    (hmax : c.totalSize ≤ mupgradePacketMaxNum * mupgradePacketMaxSize) (es : List NodeEvent)
    (hes : ∀ e ∈ es, OfImage c name e) :
    Through (observe nodeEvent noteSave) (Resumes c) (.boot none flash, none) es ↔
      Along (observe nodeEvent noteSave) SavesWhole (.boot none flash, none) es := by
  have hkept : RecordKept c name (.boot none flash, none) :=
    ⟨fun _ hg => (by cases hg), fun _ hg => (by cases hg)⟩
  exact through_iff_along_of (event_kept hmax) (fun _ h => h.resumes hmax)
    (fun w e _ _ h => event_savesWhole w e h) hkept (along_event.mpr hes)

/-- The marks of a firmware of at most 3968 packets are all saved. -/
theorem small_savesWhole {c : SendCall} {name : Bytes 32}
    (hmax : c.totalSize ≤ mupgradePacketMaxNum * mupgradePacketMaxSize)
    (hsmall : c.packetNum ≤ 3968) (w : UpgradeNode × Option MupgradeConfig) (e : NodeEvent)
    (h : RecordKept c name w) (hof : OfImage c name e) : SavesWhole w e := by
  obtain ⟨n, kept⟩ := w
  have hclear : ∀ (e : WriteEnv) (packet : MupgradePacket) (g : MupgradeConfig), c.Has packet →
      n.record e.loaded = some g → SavesWith e packet g n → (g.counting packet).tailClear := by
    intro e packet g hpacket hrecord hsave i _ hi
    have hg := counting_accounted hmax hpacket (h.record hrecord) hsave.1
      (counting_counted g packet)
    exact hg.inside i (hsmall.trans hi)
  cases e with
  | msg msg =>
    cases msg with
    | status e status => trivial
    | data e packet => exact fun g hrecord hsave _ => hclear e packet g hof hrecord hsave
  | reset => trivial
  | cut e packet => exact fun g hrecord hsave => hclear e packet g hof hrecord hsave

theorem small_savesWhole_along (c : SendCall) (name : Bytes 32) (flash : ℕ → Flash)
    (hmax : c.totalSize ≤ mupgradePacketMaxNum * mupgradePacketMaxSize)
    (hsmall : c.packetNum ≤ 3968) (es : List NodeEvent) (hes : ∀ e ∈ es, OfImage c name e) :
    Along (observe nodeEvent noteSave) SavesWhole (.boot none flash, none) es := by
  have hkept : RecordKept c name (.boot none flash, none) :=
    ⟨fun _ hg => (by cases hg), fun _ hg => (by cases hg)⟩
  refine along_of_invariant_along (I := RecordKept c name) (fun w e h hof => ?_)
    (small_savesWhole hmax hsmall) hkept (along_event.mpr hes)
  exact event_kept hmax w e h hof (small_savesWhole hmax hsmall w e h hof)

/-- Ten packets, each of them ten percent of the firmware. -/
def tenPackets : SendCall := { paddedFirmware with totalSize := 10240 }

def tenPacket (loaded : Bool) (seq : ℕ) : WriteEnv × MupgradePacket :=
  ⟨{ allSucceed with loaded := loaded }, seq, 1024, fun _ => 7⟩

/-- A request, two packets, a third one behind whose save the device is reset, a fourth one, which
is not saved, and after another reset a packet that is there. -/
def resetBetween : List NodeEvent :=
  [.msg (.status freshStatusEnv ⟨2, paddedName, .ok, 10240, 0⟩),
    .msg (.data (tenPacket false 3).1 (tenPacket false 3).2),
    .msg (.data (tenPacket false 7).1 (tenPacket false 7).2),
    .cut (tenPacket false 9).1 (tenPacket false 9).2,
    .msg (.data (tenPacket true 0).1 (tenPacket true 0).2), .reset,
    .msg (.data (tenPacket true 3).1 (tenPacket true 3).2)]

theorem resetBetween_of_image : ∀ e ∈ resetBetween, OfImage tenPackets paddedName e := by
  have hhas : ∀ loaded, ∀ seq < 10, tenPackets.Has (tenPacket loaded seq).2 := by
    intro loaded seq hseq
    refine ⟨hseq, ?_⟩
    exact (ite_self _).symm
  intro e he
  simp only [resetBetween, List.mem_cons, List.not_mem_nil, or_false] at he
  rcases he with rfl | rfl | rfl | rfl | rfl | rfl | rfl
  · exact ⟨⟨rfl, MdfErr.noConfusion⟩, rfl⟩
  · exact hhas false 3 (by decide)
  · exact hhas false 7 (by decide)
  · exact hhas false 9 (by decide)
  · exact hhas true 0 (by decide)
  · trivial
  · exact hhas true 3 (by decide)

theorem resumes_with_what_was_saved_between :
    let w := (UpgradeNode.boot none fun _ => fun _ => 0, none)
    ((run (observe nodeEvent noteSave) w resetBetween).1.info.map fun g =>
        (g.status.writtenSize, (List.range 10).filter g.bit)) = some (3072, [3, 7, 9]) ∧
      Through (observe nodeEvent noteSave) (Resumes tenPackets) w resetBetween :=
  ⟨by decide +kernel,
    (resumes_with_what_was_saved tenPackets paddedName _ (by decide) resetBetween
      resetBetween_of_image).mpr
      (small_savesWhole_along tenPackets paddedName _ (by decide) (by decide) _
        resetBetween_of_image)⟩

/-! ## A firmware of 4096 packets -/

def wholeFirmware : SendCall := { paddedFirmware with totalSize := 4194304 }

def wholeRequest : MupgradeStatus := ⟨2, paddedName, .ok, 4194304, 0⟩

def wholePacket (seq : ℕ) : MupgradePacket :=
  ⟨seq, 1024, fun k => wholeFirmware.partition (seq * mupgradePacketMaxSize + k)⟩

/-- The last packet comes first. -/
def lastFirst (k : ℕ) : ℕ := if k = 0 then 4095 else k - 1

def lastFirstEvent (k : ℕ) : NodeEvent := .msg (.data allSucceed (wholePacket (lastFirst k)))

/-- A device that has the first `k` packets in this order, and has not reported any. -/
structure Marked (k : ℕ) (n : UpgradeNode) (g : MupgradeConfig) : Prop where
  config : n.gUpgradeConfig = some g
  totalSize : g.status.totalSize = 4194304
  notStopped : g.status.errorCode ≠ .stop
  written : g.status.writtenSize = 1024 * k
  bits : ∀ i, g.bit i = true ↔ ∃ m < k, lastFirst m = i
  next : n.sNextWrittenPercentage = 10

theorem status_next (e : StatusEnv) (status : MupgradeStatus) (n : UpgradeNode) :
    (mupgradeStatus e status n).1.sNextWrittenPercentage = n.sNextWrittenPercentage := by
  have hexit : ∀ e ret g n calls, (statusExit e ret g n calls).1.sNextWrittenPercentage =
      n.sNextWrittenPercentage := fun _ _ _ _ _ => rfl
  unfold mupgradeStatus statusRoot statusBegin
  dsimp only
  repeat' split
  all_goals rw [hexit]

theorem marked_start : ∃ g, Marked 0
    (nodeStep (.boot none fun _ => fun _ => 0) (.status freshStatusEnv wholeRequest)) g := by
  obtain ⟨g, n', calls, ret, hother, hret, hstatus, hprogress, -⟩ :=
    mupgradeStatus_starts freshStatusEnv wholeRequest
      (n := .boot none fun _ => fun _ => 0) rfl (by decide)
  refine ⟨_, ⟨congrArg (·.1.gUpgradeConfig) hother, ?_, ?_, ?_, fun i => ?_, status_next ..⟩⟩
  · exact congrArg MupgradeStatus.totalSize hstatus
  · have hstop : ¬ g.status.errorCode = .stop := by
      rw [hstatus]
      exact MdfErr.noConfusion
    dsimp only
    rw [if_neg hstop]
    exact hret
  · exact congrArg MupgradeStatus.writtenSize hstatus
  · refine iff_of_false (fun hbit => ?_) (by simp)
    exact absurd ((zero_bit hprogress i).symm.trans hbit) Bool.false_ne_true

theorem lastFirst_inj {j k : ℕ} (hj : j < 4096) (hk : k < 4096) (h : lastFirst j = lastFirst k) :
    j = k := by
  unfold lastFirst at h
  split at h <;> split at h <;> omega

theorem whole_has {k : ℕ} (hk : k < 4096) : wholeFirmware.Has (wholePacket (lastFirst k)) := by
  have hnum : wholeFirmware.packetNum = 4096 := rfl
  have hlast : wholeFirmware.lastPacketSize = 1024 := rfl
  refine ⟨?_, ?_⟩
  · rw [hnum]
    unfold wholePacket lastFirst
    dsimp only
    split <;> omega
  · rw [SendCall.packetSizeAt, hlast]
    exact (ite_self _).symm

/-- A packet that brings no report only changes the record in use. -/
theorem data_unreported {e : WriteEnv} {packet : MupgradePacket} {g : MupgradeConfig}
    {n : UpgradeNode} (hrecord : n.record e.loaded = some g) (hgoes : ¬ g.refuses packet)
    (hwrite : e.partitionWrite = none) (hsize : g.status.totalSize ≠ 0)
    (hopen : (g.counting packet).status.writtenSize ≠ g.status.totalSize)
    (hquiet : (g.counting packet).status.writtenSize * 100 % 4294967296 / g.status.totalSize ≠
      n.sNextWrittenPercentage) :
    (nodeStep n (.data e packet)).gUpgradeConfig = some (g.counting packet) ∧
      (nodeStep n (.data e packet)).sNextWrittenPercentage = n.sNextWrittenPercentage := by
  have hfails : ¬ e.partitionWrite.isSome = true := by simp [hwrite]
  have hhandle := writePacket_goes_on (e := e) (n := n) hgoes
  dsimp only at hhandle
  rw [if_neg hfails, ← mupgradeWrite_some hrecord] at hhandle
  obtain ⟨hconfig, -, -, hnext⟩ := writeDone_incomplete (e := e) (n := n.flashed e packet g)
    [.partitionWrite g.partition (packet.seq * mupgradePacketMaxSize) packet.size] hsize hopen
  rw [UpgradeNode.flashed, if_neg hquiet] at hnext
  rw [nodeStep, mupgradeHandle, hhandle]
  exact ⟨hconfig, hnext⟩

section Marks
variable {k : ℕ} {n : UpgradeNode} {g : MupgradeConfig}

theorem Marked.not_empty (h : Marked k n g) : g.status.totalSize ≠ 0 := by
  rw [h.totalSize]
  decide

theorem Marked.goes_on (h : Marked k n g) (hk : k < 4096) :
    ¬ g.refuses (wholePacket (lastFirst k)) := by
  have hlast : lastFirst k ≤ 4095 := by
    unfold lastFirst
    split <;> omega
  rintro (hstop | hrange | hbit)
  · exact h.notStopped hstop
  · rw [h.totalSize] at hrange
    simp only [wholePacket, mupgradePacketMaxSize] at hrange
    omega
  · obtain ⟨m, hm, heq⟩ := (h.bits _).mp hbit
    exact absurd (lastFirst_inj (hm.trans hk) hk heq) (Nat.ne_of_lt hm)

theorem Marked.counting_written (h : Marked k n g) (hk : k < 4096) :
    (g.counting (wholePacket (lastFirst k))).status.writtenSize = 1024 * (k + 1) := by
  simp only [MupgradeConfig.counting, h.written, wholePacket]
  omega

theorem Marked.counting_bits (h : Marked k n g) (i : ℕ) :
    (g.counting (wholePacket (lastFirst k))).bit i = true ↔ ∃ m < k + 1, lastFirst m = i := by
  rw [(counting_counted g _).bit, Bool.or_eq_true, decide_eq_true_eq, h.bits]
  constructor
  · rintro (⟨m, hm, hi⟩ | hi)
    · exact ⟨m, Nat.lt_succ_of_lt hm, hi⟩
    · exact ⟨k, Nat.lt_succ_self k, hi⟩
  · rintro ⟨m, hm, hi⟩
    rcases Nat.lt_succ_iff_lt_or_eq.mp hm with hlt | rfl
    · exact .inl ⟨m, hlt, hi⟩
    · exact .inr hi

/-- What has come in is less than `written_size` can hold a hundred times of. -/
theorem Marked.percentage (h : Marked k n g) (hk : k < 410) :
    (g.counting (wholePacket (lastFirst k))).status.writtenSize * 100 % 4294967296 /
      g.status.totalSize = 102400 * (k + 1) / 4194304 := by
  have hmod : 1024 * (k + 1) * 100 % 4294967296 = 102400 * (k + 1) := by
    rw [Nat.mod_eq_of_lt (by omega)]
    omega
  rw [h.counting_written (by omega), h.totalSize, hmod]

/-- In front of the tenth percent nothing is saved. -/
theorem marked_step (h : Marked k n g) (hk : k < 409) :
    ∃ g', Marked (k + 1) (nodeStep n (.data allSucceed (wholePacket (lastFirst k)))) g' := by
  have hwritten := h.counting_written (by omega)
  have hopen : (g.counting (wholePacket (lastFirst k))).status.writtenSize ≠
      g.status.totalSize := by
    rw [hwritten, h.totalSize]
    omega
  have hquiet : (g.counting (wholePacket (lastFirst k))).status.writtenSize * 100 % 4294967296 /
      g.status.totalSize ≠ n.sNextWrittenPercentage := by
    rw [h.percentage (by omega), h.next]
    omega
  obtain ⟨hconfig, hnext⟩ := data_unreported (record_of_config h.config allSucceed.loaded)
    (h.goes_on (by omega)) rfl h.not_empty hopen hquiet
  have hcounted := counting_counted g (wholePacket (lastFirst k))
  exact ⟨_, hconfig, hcounted.totalSize.trans h.totalSize, hcounted.notStopped h.notStopped,
    hwritten, h.counting_bits, hnext.trans h.next⟩

theorem marked_run (h : Marked 0 n g) (k : ℕ) (hk : k ≤ 409) :
    ∃ g', Marked k (run nodeEvent n ((List.range k).map lastFirstEvent)) g' := by
  induction k with
  | zero => exact ⟨g, h⟩
  | succ k ih =>
    obtain ⟨g', hg'⟩ := ih (by omega)
    rw [List.range_succ, List.map_append, run_append]
    exact marked_step hg' hk

/-- The packet behind the tenth percent has the record saved, and the mark of the last packet is
not saved with it. -/
theorem marked_loses {w : UpgradeNode × Option MupgradeConfig} (h : Marked 409 w.1 g) :
    ¬ SavesWhole w (lastFirstEvent 409) := by
  intro hwhole
  have hrecord := record_of_config h.config allSucceed.loaded
  have hsave : SavesWith allSucceed (wholePacket (lastFirst 409)) g w.1 := by
    refine ⟨h.goes_on (by omega), rfl, rfl, h.not_empty, ?_⟩
    rw [h.percentage (by omega), h.next]
  have hopen : (g.counting (wholePacket (lastFirst 409))).status.writtenSize ≠
      g.status.totalSize := by
    rw [h.counting_written (by omega), h.totalSize]
    omega
  have hclear := hwhole g hrecord hsave hopen 4095 (by decide) (by decide)
  have hset := (h.counting_bits 4095).mpr ⟨0, by omega, rfl⟩
  exact absurd (hclear.symm.trans hset) Bool.false_ne_true

end Marks

def lastFirstEvents : List NodeEvent :=
  .msg (.status freshStatusEnv wholeRequest) :: (List.range 410).map lastFirstEvent

/-- The last packet comes first, and the record is saved with it and the first 409. -/
theorem resume_loses_last_packet :
    ¬ ∀ (c : SendCall) (name : Bytes 32) (flash : ℕ → Flash) (es : List NodeEvent),
      c.totalSize ≤ mupgradePacketMaxNum * mupgradePacketMaxSize →
      (∀ e ∈ es, OfImage c name e) →
      Through (observe nodeEvent noteSave) (Resumes c) (.boot none flash, none) es := by
  intro h
  have hof : ∀ e ∈ lastFirstEvents, OfImage wholeFirmware paddedName e := by
    refine List.forall_mem_cons.mpr ⟨⟨⟨rfl, MdfErr.noConfusion⟩, rfl⟩, fun e he => ?_⟩
    obtain ⟨k, hk, rfl⟩ := List.mem_map.mp he
    exact whole_has ((List.mem_range.mp hk).trans (by omega))
  have hthrough := h wholeFirmware paddedName (fun _ => fun _ => 0) lastFirstEvents (by decide) hof
  obtain ⟨g₀, hstart⟩ := marked_start
  obtain ⟨g, hmarked⟩ := marked_run hstart 409 le_rfl
  have hlast := hthrough.2.last
  rw [List.range_succ, List.map_append, run_append] at hlast
  have hwhole := event_savesWhole _ (lastFirstEvent 409) hlast
  refine marked_loses (g := g) ?_ hwhole
  rw [run_observe]
  exact hmarked

end EspMesh
