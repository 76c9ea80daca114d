import EspMesh.Proof.Distribution

/-! # A success and its firmware

The three places that move a device to `successed_addr` compare the two sizes of the message
with each other. Neither the size nor the name of the firmware being distributed is looked at.
-/

namespace EspMesh
set_option autoImplicit false
set_option maxRecDepth 20000
open ByteMem StepRuns

/-! ## The three places -/

section Places
variable (c : SendCall) (q : StatusMessage) (s : Send)

/-- The message is taken for a completion where the function is. -/
def Send.completes : Bool :=
  q.writtenSize == q.totalSize && (addrsRemove q.srcAddr s.unfinishedAddr).2 &&
    match s.pc with
    | .finished => true
    | .response _ =>
      q.errorCode != c.mdfErrMupgradeStop && (addrsRemove q.srcAddr s.requestAddrs).2 &&
        q.writtenSize != 0
    | .drain => (addrsRemove q.srcAddr s.requestedAddr).2
    | _ => false

theorem completes_size (h : s.completes c q = true) : q.writtenSize = q.totalSize := by
  simp only [Send.completes, Bool.and_eq_true, beq_iff_eq] at h
  exact h.1.1

/-- The devices that have succeeded once the message is taken. -/
def Send.successedWith : List Mac :=
  if s.completes c q then s.successedAddr ++ [q.srcAddr] else s.successedAddr

@[simp] theorem exitIfFinished_successed : s.exitIfFinished.successedAddr = s.successedAddr :=
  congrArg Ledger.successed (exitIfFinished_ledger s)

@[simp] theorem responseNext_successed (i : ℕ) :
    (s.responseNext i).successedAddr = s.successedAddr :=
  congrArg Ledger.successed (responseNext_ledger s i)

theorem finishedReceive_successed (hpc : s.pc = .finished) :
    (s.finishedReceive c q).successedAddr = s.successedWith c q := by
  unfold Send.finishedReceive Send.successedWith Send.completes
  rw [hpc, addrsRemove_snd]
  by_cases hsize : q.writtenSize = q.totalSize
  · by_cases hmem : q.srcAddr ∈ s.unfinishedAddr
    · simp [hsize, hmem, Send.mdfFree, Send.succeed, Send.removeUnfinished, Send.take]
    · simp [hsize, hmem, Send.mdfFree, Send.take]
  · by_cases hstop : q.errorCode = c.mdfErrMupgradeStop
    · simp [hsize, hstop, Send.mdfFree, Send.removeUnfinished, Send.take]
    · simp [hsize, hstop, Send.mdfFree, Send.take]

theorem drainReceive_successed (hpc : s.pc = .drain) :
    (s.drainReceive c q).successedAddr = s.successedWith c q := by
  unfold Send.drainReceive Send.successedWith Send.completes
  rw [hpc, addrsRemove_snd, addrsRemove_snd]
  by_cases hsize : q.writtenSize = q.totalSize
  · by_cases hmem : q.srcAddr ∈ s.unfinishedAddr
    · by_cases hreq : q.srcAddr ∈ s.requestedAddr
      · simp [hsize, hmem, hreq, Send.mdfFree, Send.succeed, Send.removeUnfinished,
          Send.removeRequested, Send.take]
      · simp [hsize, hmem, hreq, Send.removeUnfinished, Send.removeRequested, Send.take]
    · simp [hsize, hmem, Send.removeUnfinished, Send.take]
  · by_cases hstop : q.errorCode = c.mdfErrMupgradeStop
    · simp [hsize, hstop, Send.mdfFree, Send.removeUnfinished, Send.removeRequested, Send.take]
    · simp [hsize, hstop, Send.mdfFree, Send.take]

theorem responseProgress_successed :
    (s.responseProgress q).successedAddr =
      if q.writtenSize ≠ 0 ∧ q.writtenSize = q.totalSize ∧ q.srcAddr ∈ s.unfinishedAddr then
        s.successedAddr ++ [q.srcAddr] else s.successedAddr := by
  unfold Send.responseProgress
  rw [addrsRemove_snd]
  by_cases hzero : q.writtenSize = 0
  · simp [hzero, Send.mdfFree]
  · by_cases hsize : q.writtenSize = q.totalSize
    · by_cases hmem : q.srcAddr ∈ s.unfinishedAddr
      · simp [hsize ▸ hzero, hsize, hmem, Send.mdfFree, Send.succeed, Send.removeUnfinished]
      · simp [hsize ▸ hzero, hsize, hmem, Send.mdfFree]
    · simp [hzero, hsize, Send.mdfFree]

theorem responseReceive_successed {i : ℕ} (hpc : s.pc = .response i) :
    (s.responseReceive c q).successedAddr = s.successedWith c q := by
  unfold Send.responseReceive Send.successedWith Send.completes
  rw [hpc, addrsRemove_snd]
  by_cases hstop : q.errorCode = c.mdfErrMupgradeStop
  · simp [hstop, Send.mdfFree, Send.removeUnfinished, Send.removeRequest, Send.take]
  · by_cases hreq : q.srcAddr ∈ s.requestAddrs
    · simp only [if_neg hstop, hreq, decide_true, Bool.not_true, Bool.false_eq_true, if_false]
      rw [responseProgress_successed]
      split <;> simp [hstop, Send.removeRequest, Send.take, and_comm]
    · simp [hstop, hreq, Send.mdfFree, Send.take]

theorem step_successed {e : SendEvent} (h : ∀ q, e ≠ .receive (some q)) :
    (s.step c e).successedAddr = s.successedAddr := by
  rcases step_effect c s e with hsame | ⟨q, rfl, -⟩
  · exact congrArg Ledger.successed hsame
  · exact absurd rfl (h q)

theorem step_receive_successed (h : s.pc.receives = true) :
    (s.step c (.receive (some q))).successedAddr = s.successedWith c q := by
  cases hpc : s.pc with
  | finished =>
    simp only [Send.step, hpc]
    exact finishedReceive_successed c q s hpc
  | response i =>
    simp only [Send.step, hpc]
    exact (responseNext_successed _ i).trans (responseReceive_successed c q s hpc)
  | drain =>
    simp only [Send.step, hpc]
    exact drainReceive_successed c q s hpc
  | empty =>
    simp [Send.step, Send.successedWith, Send.completes, hpc, Send.mdfFree, Send.take]
  | _ => simp [hpc, SendPc.receives] at h

end Places

/-! ## Messages and the queue -/

section Sessions
variable (c : FirmwareCall) (s : Session)

/-- The message that the step takes from the queue. -/
def Session.taken : SessionEvent → Option FirmwareStatus
  | .receive => if s.send.pc.receives then s.queue.head? else none
  | _ => none

/-- A device moves only on a message from it about this firmware that says all is written. -/
def MovesOnThis (e : SessionEvent) : Prop :=
  (s.step c e).send.successedAddr = s.send.successedAddr ∨
    ∃ q, s.taken e = some q ∧
      (s.step c e).send.successedAddr = s.send.successedAddr ++ [q.srcAddr] ∧
      q.name = c.name ∧ q.totalSize = c.totalSize ∧ q.writtenSize = c.totalSize

/-- A message that is taken for a completion is about this firmware. -/
def CompletesThis (e : SessionEvent) : Prop :=
  ∀ q, s.taken e = some q → s.send.completes c.toSendCall q.toStatusMessage = true →
    q.name = c.name ∧ q.totalSize = c.totalSize

theorem session_successed {e : SessionEvent} {q : FirmwareStatus} (h : s.taken e = some q) :
    (s.step c e).send.successedAddr = s.send.successedWith c.toSendCall q.toStatusMessage := by
  cases e with
  | receive =>
    simp only [Session.taken] at h
    split at h
    · rename_i hreceives
      simp only [Session.step, if_pos hreceives, h, Option.map_some]
      exact step_receive_successed _ _ _ hreceives
    · cases h
  | _ => cases h

theorem session_same {e : SessionEvent} (h : s.taken e = none) :
    (s.step c e).send.successedAddr = s.send.successedAddr := by
  cases e with
  | handle msg =>
    simp only [Session.step, mupgradeRootHandle]
    split
    · rename_i s' hs'
      split at hs'
      · cases hs'
      · split at hs'
        · cases hs'
          rfl
        · cases hs'
    · rfl
  | receive =>
    simp only [Session.taken] at h
    simp only [Session.step]
    split
    · rename_i hreceives
      rw [if_pos hreceives] at h
      rw [h]
      exact step_successed _ _ fun _ => by simp
    · rfl
  | flash ok => exact step_successed _ _ fun _ => SendEvent.noConfusion
  | next => exact step_successed _ _ fun _ => SendEvent.noConfusion
  | stop => exact step_successed _ _ fun _ => SendEvent.noConfusion

theorem movesOnThis_iff (e : SessionEvent) : MovesOnThis c s e ↔ CompletesThis c s e := by
  cases htaken : s.taken e with
  | none =>
    refine iff_of_true (.inl (session_same c s htaken)) fun q hq => ?_
    rw [htaken] at hq
    cases hq
  | some q =>
    have hsucc := session_successed c s htaken
    rw [Send.successedWith] at hsucc
    by_cases hcompletes : s.send.completes c.toSendCall q.toStatusMessage = true
    · rw [if_pos hcompletes] at hsucc
      constructor
      · rintro (hsame | ⟨q', hq', -, hname, htotal, -⟩) p hp -
        · rw [hsucc] at hsame
          exact absurd hsame (by simp)
        · rw [hq'] at hp
          cases hp
          exact ⟨hname, htotal⟩
      · intro h
        obtain ⟨hname, htotal⟩ := h q htaken hcompletes
        have hsize := completes_size _ _ _ hcompletes
        exact .inr ⟨q, htaken, hsucc, hname, htotal, hsize.trans htotal⟩
    · rw [if_neg hcompletes] at hsucc
      refine iff_of_true (.inl hsucc) fun p hp hcomp => ?_
      rw [htaken] at hp
      cases hp
      exact absurd hcomp hcompletes

/-- What waits in the queue was there before or has just come in. -/
theorem step_queue (e : SessionEvent) {q : FirmwareStatus} (h : q ∈ (s.step c e).queue) :
    q ∈ s.queue ∨ e = .handle q := by
  cases e with
  | handle msg =>
    simp only [Session.step, mupgradeRootHandle] at h
    by_cases hrun : s.send.gMupgradeSendRunningFlag = true
    · by_cases hroom : s.queue.length < 3
      · simp only [hrun, hroom, Bool.not_true, Bool.false_eq_true, if_false, if_true,
          List.mem_append, List.mem_singleton] at h
        exact h.imp_right fun hq => by rw [hq]
      · simp only [hrun, hroom, Bool.not_true, Bool.false_eq_true, if_false] at h
        exact .inl h
    · simp only [hrun, Bool.not_false, if_true] at h
      exact .inl h
  | receive =>
    simp only [Session.step] at h
    split at h
    · exact .inl (List.mem_of_mem_tail h)
    · exact .inl h
  | _ => exact .inl h

end Sessions

/-! ## Runs -/

/-- A completion is one of this firmware. -/
def Fresh (c : FirmwareCall) (q : FirmwareStatus) : Prop :=
  q.writtenSize = q.totalSize → q.name = c.name ∧ q.totalSize = c.totalSize

/-- As long as no completion of another firmware comes in, devices move as they should. -/
theorem fresh_messages_move {c : FirmwareCall} {s : Session} {es : List SessionEvent}
    (hqueue : ∀ q ∈ s.queue, Fresh c q) (hes : ∀ e ∈ es, ∀ q, e = .handle q → Fresh c q) :
    Along (Session.step c) (MovesOnThis c) s es := by
  have halong : Along (Session.step c) (fun _ e => ∀ q, e = .handle q → Fresh c q) s es :=
    along_event.mpr hes
  refine along_of_invariant_along (I := fun s => ∀ q ∈ s.queue, Fresh c q) ?_ ?_ hqueue halong
  · intro s e hqueue he q hq
    exact (step_queue c s e hq).elim (hqueue q) (he q)
  · intro s e hqueue _
    refine (movesOnThis_iff c s e).mpr fun q hq hcompletes => hqueue q ?_ ?_
    · cases e with
      | receive =>
        simp only [Session.taken] at hq
        split at hq
        · exact List.mem_of_mem_head? hq
        · cases hq
      | _ => cases hq
    · exact completes_size _ _ _ hcompletes

/-- In a run of the function, whatever messages come in and wherever it stands at first, devices
move only on messages about this firmware exactly when none about another is taken for a
completion. -/
theorem success_means_firmware (c : FirmwareCall) (s : Session) (es : List SessionEvent) :
    Along (Session.step c) (MovesOnThis c) s es ↔ Along (Session.step c) (CompletesThis c) s es :=
  along_congr (I := fun _ => True) (B := fun _ _ => True) (fun _ _ _ _ => trivial)
    (fun s e _ _ => movesOnThis_iff c s e) trivial (along_of_forall fun _ _ _ => trivial)

/-- A firmware of two packets for two devices. -/
def secondFirmware : FirmwareCall where
  toSendCall := { callOfTwo with totalSize := 2048 }
  name := Bytes.const 32 2

/-- A device reports that the firmware before this one is complete, with its name and its
size. -/
def lateStatus : FirmwareStatus := { statusOf 10 1024 with name := Bytes.const 32 1 }

theorem late_status_succeeds :
    ¬ ∀ (c : FirmwareCall) (s : Session) (es : List SessionEvent),
      Along (Session.step c) (MovesOnThis c) s es := by
  intro h
  have hlate := h secondFirmware ⟨(mupgradeFirmwareSend secondFirmware.toSendCall (fun _ => 0)
    (fun _ => 0)).get rfl, []⟩ [.next, .handle lateStatus, .receive]
  rcases hlate.2.2.1 with hsame | ⟨q, hq, -, hname, -⟩
  · exact absurd hsame (by decide)
  · have hlateName : q.name = Bytes.const 32 1 := by
      cases hq
      rfl
    rw [hlateName] at hname
    exact absurd hname (by decide)

end EspMesh
