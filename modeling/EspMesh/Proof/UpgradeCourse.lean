import EspMesh.Model.UpgradeNet
import EspMesh.Proof.FirmwarePackets
import EspMesh.Proof.StatusRound

/-! # What the root sends in a round

One device among those that are asked: the root passes over a packet only if the device has it, or
else writes it, and the device is among those it writes to.
-/

namespace EspMesh
set_option autoImplicit false
set_option maxRecDepth 20000
open ByteMem StepRuns

/-! ## The places of a round -/

/-- The bits are those of the devices asked in this round. -/
def SendPc.knowing : SendPc → Bool
  | .request _ | .response _ | .packet | .flash | .drain | .write => true
  | _ => false

/-- In the loop over the packets. -/
def SendPc.sending : SendPc → Bool
  | .packet | .flash | .drain | .write => true
  | _ => false

theorem knowing_of_sending {pc : SendPc} (h : pc.sending = true) : pc.knowing = true := by
  cases pc with
  | packet | flash | drain | write => rfl
  | round | finished | request i | response i | exit | empty | returned => cases h

/-- The writes as they were when the round began. -/
def noteRoundWrites (base : List MupgradeWrite) (s : Send) : SendEvent → List MupgradeWrite
  | .next => if s.pc = .round then s.writes else base
  | _ => base

/-- In this round packet `i` has been written to `a`. -/
def SentTo (c : SendCall) (a : Mac) (base : List MupgradeWrite) (i : ℕ) (s : Send) : Prop :=
  ∃ new, s.writes = new ++ base ∧ ∃ dests size data, .packet dests i size data ∈ new ∧
    (MupgradeWrite.packet dests i size data).getsTo c a = true

/-- What the root knows of device `a`, which has the packets in `Has`. -/
structure Course (c : SendCall) (a : Mac) (Has : ℕ → Prop) (base : List MupgradeWrite) (s : Send) :
    Prop where
  since : base <:+ s.writes
  entered : s.pc = .finished → s.requestedAddr = []
  array : s.pc.knowing = true → a ∈ s.requestedAddr → ∀ i < c.packetNum,
    BitArray.get s.progressArray.byte i = true → Has i
  passed : s.pc.sending = true → a ∈ s.requestedAddr → ∀ i < c.packetNum, i < s.seq →
    Has i ∨ SentTo c a base i s

section Steps
variable {c : SendCall} {a : Mac} {Has : ℕ → Prop} {base : List MupgradeWrite} {s s' : Send}
variable {q : StatusMessage}

theorem Course.mono (h : Course c a Has base s) {Has' : ℕ → Prop} (hhas : ∀ i, Has i → Has' i) :
    Course c a Has' base s :=
  ⟨h.since, h.entered, fun hpc ha i hi hbit => hhas i (h.array hpc ha i hi hbit),
    fun hpc ha i hi hseq => (h.passed hpc ha i hi hseq).imp_left (hhas i)⟩

/-- Behind a step to a place where nothing is known. -/
theorem Course.leave (hsince : base <:+ s'.writes) (hentered : s'.pc = .finished →
    s'.requestedAddr = []) (hpc : s'.pc.knowing = false) : Course c a Has base s' := by
  refine ⟨hsince, hentered, fun hknow => ?_, fun hsend => ?_⟩
  · rw [hpc] at hknow
    cases hknow
  · rw [knowing_of_sending hsend] at hpc
    cases hpc

theorem sentTo_congr (hwrites : s'.writes = s.writes) (i : ℕ) :
    SentTo c a base i s' ↔ SentTo c a base i s := by
  rw [SentTo, SentTo, hwrites]

/-- Devices may leave, and the place may change within the loop over the packets. -/
theorem Course.within (h : Course c a Has base s) (hpc : s'.pc.sending = s.pc.sending)
    (hknow : s'.pc.knowing = s.pc.knowing) (hfinished : s'.pc ≠ .finished)
    (hrequested : s'.requestedAddr ⊆ s.requestedAddr)
    (harray : s'.progressArray = s.progressArray) (hseq : s'.seq = s.seq)
    (hwrites : s'.writes = s.writes) : Course c a Has base s' := by
  refine ⟨hwrites ▸ h.since, fun hpc' => absurd hpc' hfinished, fun hpc' ha i hi hbit => ?_,
    fun hpc' ha i hi hlt => ?_⟩
  · exact h.array (hknow ▸ hpc') (hrequested ha) i hi (harray ▸ hbit)
  · rw [sentTo_congr hwrites]
    exact h.passed (hpc ▸ hpc') (hrequested ha) i hi (hseq ▸ hlt)

/-! ## Messages -/

theorem exitIfFinished_writes (s : Send) : s.exitIfFinished.writes = s.writes :=
  congrArg Cargo.writes (exitIfFinished_cargo s)

theorem exitIfFinished_progress (s : Send) : s.exitIfFinished.progressArray = s.progressArray := by
  unfold Send.exitIfFinished
  split <;> rfl

theorem finishedReceive_writes (c : SendCall) (q : StatusMessage) (s : Send) :
    (s.finishedReceive c q).writes = s.writes := by
  unfold Send.finishedReceive
  dsimp only
  split
  · split
    · rfl
    · exact exitIfFinished_writes _
  · split
    · exact exitIfFinished_writes _
    · exact exitIfFinished_writes _

theorem responseReceive_writes (c : SendCall) (q : StatusMessage) (s : Send) :
    (s.responseReceive c q).writes = s.writes := by
  unfold Send.responseReceive Send.responseProgress
  dsimp only
  repeat' split
  all_goals rfl

structure DrainKeeps (s s' : Send) : Prop where
  requested : s'.requestedAddr ⊆ s.requestedAddr
  array : s'.progressArray = s.progressArray
  cargo : s'.cargo = s.cargo

theorem DrainKeeps.exit (h : DrainKeeps s s') : DrainKeeps s s'.exitIfFinished :=
  ⟨(exitIfFinished_spec s').1 ▸ h.requested, (exitIfFinished_progress s').trans h.array,
    (exitIfFinished_cargo s').trans h.cargo⟩

theorem drainReceive_keeps (c : SendCall) (q : StatusMessage) (s : Send) :
    DrainKeeps s (s.drainReceive c q) := by
  have herase : ((addrsRemove q.srcAddr s.requestedAddr).1) ⊆ s.requestedAddr := by
    rw [addrsRemove_fst]
    exact List.erase_subset
  unfold Send.drainReceive
  dsimp only
  split
  · split
    · exact ⟨List.Subset.refl _, rfl, rfl⟩
    · split
      · exact ⟨herase, rfl, rfl⟩
      · exact DrainKeeps.exit ⟨herase, rfl, rfl⟩
  · split
    · exact DrainKeeps.exit ⟨herase, rfl, rfl⟩
    · exact DrainKeeps.exit ⟨List.Subset.refl _, rfl, rfl⟩

theorem finishedReceive_course (h : Course c a Has base s) (hpc : s.pc = .finished) :
    Course c a Has base (s.finishedReceive c q) := by
  obtain ⟨hrequested, hnext⟩ := finishedReceive_spec (c := c) s q
  refine Course.leave ?_ (fun _ => ?_) ?_
  · rw [finishedReceive_writes]
    exact h.since
  · rw [hrequested]
    exact h.entered hpc
  · rcases hnext with hnext | ⟨hnext, -⟩
    · rw [hnext, hpc]
      rfl
    · rw [hnext]
      rfl

/-- What a message from the device says that is there is there. -/
def SaysRight (c : SendCall) (a : Mac) (Has : ℕ → Prop) (q : StatusMessage) : Prop :=
  q.srcAddr = a → q.errorCode ≠ c.mdfErrMupgradeStop → q.writtenSize ≠ q.totalSize →
    ∀ i < c.packetNum, ¬ q.Names i → Has i

theorem responseReceive_course (hmax : c.packetNum ≤ mupgradePacketMaxNum)
    (h : Course c a Has base s) {i : ℕ} (hpc : s.pc = .response i) (hq : SaysRight c a Has q) :
    Course c a Has base (s.responseReceive c q) := by
  obtain ⟨-, hrequested, -, hbits⟩ := responseReceive_spec q s c
  have hpc' : (s.responseReceive c q).pc = .response i := (responseReceive_pc s q).trans hpc
  refine ⟨?_, fun hfin => ?_, fun _ ha k hk hbit => ?_, fun hsend => ?_⟩
  · rw [responseReceive_writes]
    exact h.since
  · rw [hpc'] at hfin
    cases hfin
  · obtain ⟨hold, hnames⟩ := (hbits k (hk.trans_le hmax)).mp hbit
    have harray := fun ha' => h.array (by rw [hpc]; rfl) ha' k hk hold
    rw [hrequested] at ha
    split at ha
    · rename_i htakes
      rw [List.mem_append, List.mem_singleton] at ha
      rcases ha with ha | ha
      · exact harray ha
      · exact hq ha.symm htakes.1.1 htakes.2 k hk fun hname => hnames ⟨htakes.1, hname⟩
    · exact harray ha
  · rw [hpc'] at hsend
    cases hsend

theorem Course.requesting (h : Course c a Has base s) (hpc : s.pc.knowing = true) {i : ℕ} :
    Course c a Has base { s with pc := .request i } :=
  ⟨h.since, SendPc.noConfusion, fun _ => h.array hpc, fun hsend => (by cases hsend)⟩

theorem receive_course (hmax : c.packetNum ≤ mupgradePacketMaxNum) (h : Course c a Has base s)
    {msg : Option StatusMessage} (hq : ∀ q, msg = some q → SaysRight c a Has q) :
    Course c a Has base (s.step c (.receive msg)) := by
  simp only [Send.step]
  split
  · rename_i hpc
    exact finishedReceive_course h hpc
  · rename_i hpc
    have hnone := h.entered hpc
    refine ⟨h.since, SendPc.noConfusion, fun _ ha => ?_, fun hsend => (by cases hsend)⟩
    exact absurd (hnone ▸ ha) List.not_mem_nil
  · rename_i i q hpc
    have hstep := responseReceive_course hmax h hpc (hq q rfl)
    rcases responseNext_spec (s.responseReceive c q) i with hnext | hnext
    · rw [hnext]
      exact hstep
    · rw [hnext]
      exact hstep.requesting (by rw [responseReceive_pc, hpc]; rfl)
  · rename_i hpc
    exact h.requesting (by rw [hpc]; rfl)
  · rename_i q hpc
    obtain ⟨hrequested, harray, hcargo⟩ := drainReceive_keeps c q s
    obtain ⟨hseq, -, -, hwrites⟩ := Cargo.mk.inj hcargo
    rcases drainReceive_pc (c := c) s q with hnext | hnext
    · exact h.within (by rw [hnext]) (by rw [hnext]) (by rw [hnext, hpc]; exact SendPc.noConfusion)
        hrequested harray hseq hwrites
    · exact Course.leave (hwrites ▸ h.since) (by rw [hnext]; exact SendPc.noConfusion)
        (by rw [hnext]; rfl)
  · rename_i hpc
    exact h.within (by rw [hpc]; rfl) (by rw [hpc]; rfl) SendPc.noConfusion (List.Subset.refl _)
      rfl rfl rfl
  · rename_i q hpc
    have hsame : ((s.take c q).mdfFree).pc = .empty := hpc
    exact Course.leave h.since (by rw [hsame]; exact SendPc.noConfusion) (by rw [hsame]; rfl)
  · exact Course.leave h.since SendPc.noConfusion rfl
  · exact h

/-! ## The other steps -/

theorem requestHead_course (h : Course c a Has base s) {i : ℕ} (hpc : s.pc = .request i) :
    Course c a Has base (s.requestHead i) := by
  have hknow : s.pc.knowing = true := by
    rw [hpc]
    rfl
  unfold Send.requestHead
  split
  · exact ⟨h.since.trans (List.suffix_cons _ _), SendPc.noConfusion, fun _ => h.array hknow,
      fun hsend => (by cases hsend)⟩
  · split
    · exact Course.leave h.since SendPc.noConfusion rfl
    · exact ⟨h.since, SendPc.noConfusion, fun _ => h.array hknow,
        fun _ _ i _ hi => absurd hi (Nat.not_lt_zero i)⟩

theorem hasPacket_eq (s : Send) : s.hasPacket = BitArray.get s.progressArray.byte s.seq := rfl

theorem packetHead_course (h : Course c a Has base s) (hpc : s.pc = .packet) :
    Course c a Has base (s.packetHead c) := by
  have hknow : s.pc.knowing = true := by
    rw [hpc]
    rfl
  have hsend : s.pc.sending = true := by
    rw [hpc]
    rfl
  unfold Send.packetHead
  split
  · rename_i hmore
    split
    · rename_i hhas
      rw [hasPacket_eq] at hhas
      refine ⟨h.since, fun hfin => ?_, fun _ => h.array hknow, fun _ ha i hi hlt => ?_⟩
      · cases hpc.symm.trans hfin
      · rcases Nat.lt_succ_iff_lt_or_eq.mp hlt with hlt | rfl
        · exact h.passed hsend ha i hi hlt
        · exact .inl (h.array hknow ha s.seq hi hhas)
    · exact h.within (by rw [hpc]; rfl) (by rw [hpc]; rfl) SendPc.noConfusion
        (List.Subset.refl _) rfl rfl rfl
  · exact Course.leave h.since SendPc.noConfusion rfl

/-- A packet that is written gets to every device that is still asked. -/
theorem packetWrite_course (h : Course c a Has base s) (hpc : s.pc = .write) :
    Course c a Has base (s.packetWrite c) := by
  have hknow : s.pc.knowing = true := by
    rw [hpc]
    rfl
  have hsend : s.pc.sending = true := by
    rw [hpc]
    rfl
  refine ⟨h.since.trans (List.suffix_cons _ _), SendPc.noConfusion, fun _ => h.array hknow,
    fun _ ha i hi hlt => ?_⟩
  rcases Nat.lt_succ_iff_lt_or_eq.mp hlt with hlt | rfl
  · refine (h.passed hsend ha i hi hlt).imp_right ?_
    rintro ⟨new, hnew, hsent⟩
    obtain ⟨dests, size, data, hmem, hgets⟩ := hsent
    exact ⟨_ :: new, congrArg (List.cons _) hnew, dests, size, data,
      List.mem_cons_of_mem _ hmem, hgets⟩
  · obtain ⟨new, hnew⟩ := h.since
    refine .inr ⟨_ :: new, congrArg (List.cons _) hnew.symm, _, _, _, List.mem_cons_self .., ?_⟩
    unfold MupgradeWrite.getsTo MupgradeWrite.isPacket MupgradeWrite.dests Send.packetDests
    cases hany : c.addrIsAny || c.addrIsBroadcast with
    | true => simp
    | false =>
      have ha' : a ∈ s.requestedAddr := ha
      simpa using ha'

/-- **A step.** -/
theorem step_course (hmax : c.packetNum ≤ mupgradePacketMaxNum) (h : Course c a Has base s)
    (e : SendEvent) (hq : ∀ q, e = .receive (some q) → SaysRight c a Has q) :
    Course c a Has (noteRoundWrites base s e) (s.step c e) := by
  cases e with
  | receive msg => exact receive_course hmax h fun q hmsg => hq q (by rw [hmsg])
  | flash ok =>
    simp only [Send.step]
    split
    · rename_i hpc
      cases ok with
      | false => exact Course.leave h.since SendPc.noConfusion rfl
      | true =>
        exact h.within (by rw [hpc]; rfl) (by rw [hpc]; rfl) SendPc.noConfusion
          (List.Subset.refl _) rfl rfl rfl
    · exact h
  | next =>
    have hbase : s.pc ≠ .round → noteRoundWrites base s .next = base := fun hpc => if_neg hpc
    simp only [Send.step]
    split
    · unfold Send.roundHead
      rename_i hpc
      have hnew : noteRoundWrites base s .next = s.writes := if_pos hpc
      rw [hnew]
      split
      · exact Course.leave (List.suffix_refl _) (fun _ => rfl) rfl
      · exact Course.leave (List.suffix_refl _) SendPc.noConfusion rfl
    · rename_i i hpc
      rw [hbase (by rw [hpc]; exact SendPc.noConfusion)]
      exact requestHead_course h hpc
    · rename_i hpc
      rw [hbase (by rw [hpc]; exact SendPc.noConfusion)]
      exact packetHead_course h hpc
    · rename_i hpc
      rw [hbase (by rw [hpc]; exact SendPc.noConfusion)]
      exact packetWrite_course h hpc
    · rename_i hpc
      rw [hbase (by rw [hpc]; exact SendPc.noConfusion)]
      exact Course.leave h.since SendPc.noConfusion rfl
    · rename_i hround _ _ _ _
      rw [hbase hround]
      exact h
  | stop => exact ⟨h.since, h.entered, h.array, h.passed⟩

/-! ## Who is asked, and to whom packets go -/

/-- A device comes to be asked for packets by an answer of its own that is no stop. -/
theorem step_requested (c : SendCall) (s : Send) (e : SendEvent)
    (ha : a ∈ (s.step c e).requestedAddr) : a ∈ s.requestedAddr ∨
      ∃ q, e = .receive (some q) ∧ q.srcAddr = a ∧ q.errorCode ≠ c.mdfErrMupgradeStop := by
  cases e with
  | receive msg =>
    simp only [Send.step] at ha
    split at ha
    · rw [(finishedReceive_spec (c := c) s _).1] at ha
      exact .inl ha
    · exact .inl ha
    · rename_i i q hpc
      have hnext : ((s.responseReceive c q).responseNext i).requestedAddr =
          (s.responseReceive c q).requestedAddr := by
        rcases responseNext_spec (s.responseReceive c q) i with hnext | hnext <;> rw [hnext]
      rw [hnext, (responseReceive_spec q s c).2.1] at ha
      split at ha
      · rename_i htakes
        rw [List.mem_append, List.mem_singleton] at ha
        exact ha.imp_right fun ha => ⟨q, rfl, ha.symm, htakes.1.1⟩
      · exact .inl ha
    · exact .inl ha
    · exact .inl ((drainReceive_keeps c _ s).requested ha)
    · exact .inl ha
    · exact .inl ha
    · exact .inl ha
    · exact .inl ha
  | flash ok =>
    simp only [Send.step] at ha
    split at ha
    · cases ok <;> exact .inl ha
    · exact .inl ha
  | next =>
    simp only [Send.step] at ha
    split at ha
    · unfold Send.roundHead at ha
      split at ha
      · exact absurd ha List.not_mem_nil
      · exact .inl ha
    · unfold Send.requestHead at ha
      split at ha
      · exact .inl ha
      · split at ha <;> exact .inl ha
    · unfold Send.packetHead at ha
      split at ha
      · split at ha <;> exact .inl ha
      · exact .inl ha
    · exact .inl ha
    · exact .inl ha
    · exact .inl ha
  | stop => exact .inl ha

/-- What is written is a request, or a packet for the devices asked. -/
theorem step_writes (c : SendCall) (s : Send) (e : SendEvent) :
    (s.step c e).writes = s.writes ∨ ∃ w, (s.step c e).writes = w :: s.writes ∧
      (w.isPacket = true → w.dests = s.packetDests c) := by
  cases e with
  | receive msg =>
    simp only [Send.step]
    split
    · exact .inl (finishedReceive_writes c _ s)
    · exact .inl rfl
    · rename_i i q hpc
      rcases responseNext_spec (s.responseReceive c q) i with hnext | hnext <;> rw [hnext]
      · exact .inl (responseReceive_writes c q s)
      · exact .inl (responseReceive_writes c q s)
    · exact .inl rfl
    · exact .inl (Cargo.mk.inj (drainReceive_keeps c _ s).cargo).2.2.2
    · exact .inl rfl
    · exact .inl rfl
    · exact .inl rfl
    · exact .inl rfl
  | flash ok =>
    simp only [Send.step]
    split
    · cases ok <;> exact .inl rfl
    · exact .inl rfl
  | next =>
    simp only [Send.step]
    split
    · unfold Send.roundHead
      split <;> exact .inl rfl
    · unfold Send.requestHead
      split
      · exact .inr ⟨_, rfl, fun hpacket => (by cases hpacket)⟩
      · split <;> exact .inl rfl
    · unfold Send.packetHead
      split
      · split <;> exact .inl rfl
      · exact .inl rfl
    · exact .inr ⟨_, rfl, fun _ => rfl⟩
    · exact .inl rfl
    · exact .inl rfl
  | stop => exact .inl rfl

end Steps

end EspMesh
