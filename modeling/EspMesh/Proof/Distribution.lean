import EspMesh.Library.StepRuns
import EspMesh.Library.Worklist
import EspMesh.Model.MupgradeRoot

/-! # No device is lost

A status message moves its sender between the lists in one of four ways. Three of them keep every
device accounted for. The fourth is a completion that arrives among the packets from a device
that is not in both lists: the device leaves `unfinished_addr` without arriving anywhere, and the
buffer of the message is never freed.
-/

namespace EspMesh
set_option autoImplicit false
set_option maxRecDepth 20000
open ByteMem StepRuns Worklist

/-! ## The packed arrays -/

theorem addrsRemoveLoop_spec (addr : Mac) (n i p : ℕ) (m : Mem) :
    ∃ m' found, addrsRemoveLoop addr (i + n) n i p m = (m', i + n - found.toNat, found) ∧
      Mem.SameBelow p m m' ∧ found = decide (addr ∈ addrsAt m p n) ∧
      addrsAt m' p (n - found.toNat) = (addrsAt m p n).erase addr := by
  induction n generalizing i p with
  | zero => exact ⟨m, false, rfl, Mem.SameBelow.refl p m, rfl, rfl⟩
  | succ n ih =>
    rw [addrsAt_succ, addrsRemoveLoop]
    by_cases h : m.loadBytes p 6 = addr
    · rw [if_pos h, h, List.erase_cons_head]
      dsimp only
      refine ⟨_, true, rfl, ?_, by simp, ?_⟩
      · split
        · exact Mem.SameBelow.refl p m
        · exact (Mem.SameBelow.refl p m).store _ (le_refl p)
      · rw [Bool.toNat_true, Nat.add_sub_cancel]
        refine addrsAt_congr fun a ha => ?_
        rw [if_neg (by omega), Mem.store_byte_at _ _ _ _ (by simp; omega),
          Mem.load_getD _ _ _ _ (by simp; omega)]
    · obtain ⟨m', found, hloop, hbelow, hfound, herase⟩ := ih (i + 1) (p + mwifiAddrLen)
      rw [if_neg h, List.erase_cons_tail (by rwa [beq_iff_eq])]
      rw [show i + (n + 1) = i + 1 + n by omega]
      refine ⟨m', found, hloop, hbelow.mono (by omega), ?_, ?_⟩
      · rw [hfound]
        exact decide_eq_decide.mpr (by simp [Ne.symm h])
      · have hhead : m'.loadBytes p 6 = m.loadBytes p 6 :=
          Subtype.ext (hbelow.load (le_refl _))
        have hlen : n + 1 - found.toNat = n - found.toNat + 1 := by
          cases found with
          | false => rfl
          | true =>
            have hpos : 0 < n := Nat.pos_of_ne_zero fun h0 => by
              subst h0
              exact absurd hfound (by simp [addrsAt])
            rw [Bool.toNat_true]
            omega
        rw [hlen, addrsAt_succ, hhead, herase]

/-- The function on the bytes does what the one on lists does. -/
theorem addrsRemoveBytes_refines (addr : Mac) (addrsList addrsNum : ℕ) (m : Mem) :
    ∃ m' num found, addrsRemoveBytes addr addrsList addrsNum m = (m', num, found) ∧
      addrsRemove addr (addrsAt m addrsList addrsNum) = (addrsAt m' addrsList num, found) := by
  obtain ⟨m', found, hloop, -, hfound, herase⟩ := addrsRemoveLoop_spec addr addrsNum 0 addrsList m
  rw [Nat.zero_add] at hloop
  refine ⟨m', _, found, hloop, Prod.ext ?_ ?_⟩
  · rw [addrsRemove_fst, herase]
  · rw [addrsRemove_snd, hfound]

/-! ## The four ways of a message -/

structure Ledger where
  unfinished : List Mac
  successed : List Mac
  stopped : List Mac
  held : List StatusMessage

def Send.ledger (s : Send) : Ledger := ⟨s.unfinishedAddr, s.successedAddr, s.stopped, s.held⟩

/-- A completion among the packets comes from a device that both lists have. -/
def Expected (s : Send) : SendEvent → Prop
  | .receive (some q) => s.pc = .drain → q.writtenSize = q.totalSize →
      q.srcAddr ∈ s.unfinishedAddr ∧ q.srcAddr ∈ s.requestedAddr
  | _ => True

section Messages
variable (c : SendCall) (q : StatusMessage) (s : Send)

/-- What the message leaves of the ledger: its sender stays where he is, has finished, has
stopped, or is lost together with the buffer. -/
inductive Effect (s' : Send) : Prop
  | ignored (h : s'.ledger =
      ⟨s.unfinishedAddr, s.successedAddr, (s.take c q).stopped, s.held⟩)
  | finished (hmem : q.srcAddr ∈ s.unfinishedAddr) (h : s'.ledger =
      ⟨s.unfinishedAddr.erase q.srcAddr, s.successedAddr ++ [q.srcAddr], (s.take c q).stopped,
        s.held⟩)
  | dropped (hstop : q.errorCode = c.mdfErrMupgradeStop) (h : s'.ledger =
      ⟨s.unfinishedAddr.erase q.srcAddr, s.successedAddr, (s.take c q).stopped, s.held⟩)
  | lost (hlost : ¬ Expected s (.receive (some q))) (h : s'.ledger =
      ⟨s.unfinishedAddr.erase q.srcAddr, s.successedAddr, (s.take c q).stopped, q :: s.held⟩)

@[simp] theorem exitIfFinished_ledger : s.exitIfFinished.ledger = s.ledger := by
  unfold Send.exitIfFinished
  split <;> rfl

@[simp] theorem responseNext_ledger (i : ℕ) : (s.responseNext i).ledger = s.ledger := by
  unfold Send.responseNext
  split <;> rfl

theorem finishedReceive_effect : Effect c q s (s.finishedReceive c q) := by
  unfold Send.finishedReceive
  rw [addrsRemove_snd]
  dsimp only
  split
  · split
    · exact .ignored rfl
    · rename_i hfound
      refine .finished (by simpa using hfound) ?_
      rw [exitIfFinished_ledger]
      simp only [Send.ledger, Send.mdfFree, Send.succeed, Send.removeUnfinished, Send.take,
        addrsRemove_fst, List.tail_cons]
  · split
    · rename_i hstop
      refine .dropped hstop ?_
      rw [exitIfFinished_ledger]
      simp only [Send.ledger, Send.mdfFree, Send.removeUnfinished, Send.take, addrsRemove_fst,
        List.tail_cons]
    · exact .ignored (exitIfFinished_ledger _)

theorem responseProgress_effect (s' : Send) (h : s'.ledger =
    ⟨s.unfinishedAddr, s.successedAddr, (s.take c q).stopped, q :: s.held⟩) :
    Effect c q s (s'.responseProgress q) := by
  obtain ⟨hunf, hsucc, hstop, hheld⟩ := Ledger.mk.inj h
  have hfree : ∀ m, ({ s' with progressArray := m }.mdfFree).ledger =
      ⟨s.unfinishedAddr, s.successedAddr, (s.take c q).stopped, s.held⟩ := by
    intro m
    simp only [Send.ledger, Send.mdfFree, hunf, hsucc, hstop, hheld, List.tail_cons]
  unfold Send.responseProgress
  rw [addrsRemove_snd]
  dsimp only
  split
  · exact .ignored (hfree _)
  · split
    · split
      · exact .ignored (hfree s'.progressArray)
      · rename_i hfound
        refine .finished (by simpa [hunf] using hfound) ?_
        simp only [Send.ledger, Send.mdfFree, Send.succeed, Send.removeUnfinished, addrsRemove_fst,
          hunf, hsucc, hstop, hheld, List.tail_cons]
    · exact .ignored (hfree _)

theorem responseReceive_effect : Effect c q s (s.responseReceive c q) := by
  unfold Send.responseReceive
  rw [addrsRemove_snd]
  dsimp only
  split
  · rename_i hstop
    refine .dropped hstop ?_
    simp only [Send.ledger, Send.mdfFree, Send.removeUnfinished, Send.removeRequest, Send.take,
      addrsRemove_fst, List.tail_cons]
  · split
    · exact .ignored rfl
    · -- What is noted about the requests is not in the ledger.
      split <;> exact responseProgress_effect c q s _ rfl

theorem drainReceive_effect (hpc : s.pc = .drain) : Effect c q s (s.drainReceive c q) := by
  unfold Send.drainReceive
  rw [addrsRemove_snd, addrsRemove_snd]
  dsimp only
  split
  · rename_i hcomplete
    split
    · rename_i hmiss
      refine .lost (fun h => ?_) ?_
      · exact absurd (h hpc hcomplete).1 (by simpa using hmiss)
      · simp only [Send.ledger, Send.removeUnfinished, Send.take, addrsRemove_fst]
    · rename_i hfound
      split
      · rename_i hmiss
        refine .lost (fun h => ?_) ?_
        · exact absurd (h hpc hcomplete).2 (by simpa using hmiss)
        · simp only [Send.ledger, Send.removeUnfinished, Send.removeRequested, Send.take,
            addrsRemove_fst]
      · refine .finished (by simpa using hfound) ?_
        rw [exitIfFinished_ledger]
        simp only [Send.ledger, Send.mdfFree, Send.succeed, Send.removeUnfinished,
          Send.removeRequested, Send.take, addrsRemove_fst, List.tail_cons]
  · split
    · rename_i hstop
      refine .dropped hstop ?_
      rw [exitIfFinished_ledger]
      simp only [Send.ledger, Send.mdfFree, Send.removeUnfinished, Send.removeRequested, Send.take,
        addrsRemove_fst, List.tail_cons]
    · exact .ignored (exitIfFinished_ledger _)

end Messages

/-! ## Steps -/

section Steps
variable (c : SendCall) (s : Send)

theorem requestHead_ledger (i : ℕ) : (s.requestHead i).ledger = s.ledger := by
  unfold Send.requestHead
  split
  · rfl
  · split <;> rfl

theorem packetHead_ledger : (s.packetHead c).ledger = s.ledger := by
  unfold Send.packetHead
  split
  · split <;> rfl
  · rfl

theorem flashRead_ledger (ok : Bool) : (s.flashRead c ok).ledger = s.ledger := by
  cases ok <;> rfl

theorem roundHead_ledger : s.roundHead.ledger = s.ledger := by
  unfold Send.roundHead
  split <;> rfl

/-- **A step.** Only a message taken from the queue changes the ledger, in one of its ways. -/
theorem step_effect (e : SendEvent) :
    (s.step c e).ledger = s.ledger ∨ ∃ q, e = .receive (some q) ∧ Effect c q s (s.step c e) := by
  cases e with
  | receive msg =>
    simp only [Send.step]
    split
    · exact .inr ⟨_, rfl, finishedReceive_effect c _ s⟩
    · exact .inl rfl
    · rename_i i q hpc
      refine .inr ⟨q, rfl, ?_⟩
      rcases responseReceive_effect c q s with h | ⟨hmem, h⟩ | ⟨hstop, h⟩ | ⟨hlost, h⟩
      · exact .ignored ((responseNext_ledger _ i).trans h)
      · exact .finished hmem ((responseNext_ledger _ i).trans h)
      · exact .dropped hstop ((responseNext_ledger _ i).trans h)
      · exact .lost hlost ((responseNext_ledger _ i).trans h)
    · exact .inl rfl
    · rename_i q hpc
      exact .inr ⟨q, rfl, drainReceive_effect c q s hpc⟩
    · exact .inl rfl
    · exact .inr ⟨_, rfl, .ignored rfl⟩
    · exact .inl rfl
    · exact .inl rfl
  | flash ok =>
    simp only [Send.step]
    split
    · exact .inl (flashRead_ledger c s ok)
    · exact .inl rfl
  | next =>
    simp only [Send.step]
    split
    · exact .inl (roundHead_ledger s)
    · exact .inl (requestHead_ledger s _)
    · exact .inl (packetHead_ledger c s)
    · exact .inl rfl
    · exact .inl rfl
    · exact .inl rfl
  | stop => exact .inl rfl

end Steps

/-! ## Runs -/

structure NothingLost (c : SendCall) (s : Send) : Prop where
  unfinished_nodup : s.unfinishedAddr.Nodup
  successed_nodup : s.successedAddr.Nodup
  disjoint : ∀ a ∈ s.unfinishedAddr, a ∉ s.successedAddr
  covered : ∀ a, a ∈ c.targets ↔
    a ∈ s.unfinishedAddr ∨ a ∈ s.successedAddr ∨ a ∈ s.stopped ∧ a ∈ c.targets
  freed : s.held = []

section Runs
variable {c : SendCall} {s : Send}

def Send.Accounted (c : SendCall) (s : Send) : Prop :=
  Worklist.Accounted c.targets s.unfinishedAddr s.successedAddr s.stopped

theorem accounted_take {q : StatusMessage} (h : s.Accounted c) :
    Worklist.Accounted c.targets s.unfinishedAddr s.successedAddr (s.take c q).stopped := by
  simp only [Send.take]
  split
  · exact h.note q.srcAddr
  · exact h

theorem effect_accounted {q : StatusMessage} {s' : Send} (h : s.Accounted c)
    (he : Expected s (.receive (some q))) (heffect : Effect c q s s') :
    s'.Accounted c ∧ s'.held = s.held := by
  have htake := accounted_take (q := q) h
  rcases heffect with h' | ⟨hmem, h'⟩ | ⟨hstop, h'⟩ | ⟨hlost, -⟩
  · obtain ⟨hunf, hsucc, hstopped, hheld⟩ := Ledger.mk.inj h'
    rw [Send.Accounted, hunf, hsucc, hstopped]
    exact ⟨htake, hheld⟩
  · obtain ⟨hunf, hsucc, hstopped, hheld⟩ := Ledger.mk.inj h'
    rw [Send.Accounted, hunf, hsucc, hstopped]
    exact ⟨htake.finish hmem, hheld⟩
  · obtain ⟨hunf, hsucc, hstopped, hheld⟩ := Ledger.mk.inj h'
    rw [Send.Accounted, hunf, hsucc, hstopped]
    refine ⟨htake.drop ?_, hheld⟩
    rw [Send.take, if_pos hstop]
    exact List.mem_cons_self ..
  · exact absurd he hlost

theorem step_accounted (s : Send) (e : SendEvent) (h : s.Accounted c ∧ s.held = [])
    (he : Expected s e) : (s.step c e).Accounted c ∧ (s.step c e).held = [] := by
  rcases step_effect c s e with hsame | ⟨q, rfl, heffect⟩
  · obtain ⟨hunf, hsucc, hstopped, hheld⟩ := Ledger.mk.inj hsame
    rw [Send.Accounted, hunf, hsucc, hstopped, hheld]
    exact h
  · obtain ⟨hacc, hheld⟩ := effect_accounted h.1 he heffect
    exact ⟨hacc, hheld.trans h.2⟩

theorem step_held (s : Send) (e : SendEvent) (h : s.held ≠ []) : (s.step c e).held ≠ [] := by
  rcases step_effect c s e with hsame | ⟨q, rfl, h' | ⟨-, h'⟩ | ⟨-, h'⟩ | ⟨-, h'⟩⟩
  · rwa [(Ledger.mk.inj hsame).2.2.2]
  · rwa [(Ledger.mk.inj h').2.2.2]
  · rwa [(Ledger.mk.inj h').2.2.2]
  · rwa [(Ledger.mk.inj h').2.2.2]
  · rw [(Ledger.mk.inj h').2.2.2]
    exact List.cons_ne_nil _ _

theorem step_unexpected (s : Send) (e : SendEvent) (he : ¬ Expected s e) :
    (s.step c e).held ≠ [] := by
  match e with
  | .receive none | .flash _ | .next | .stop => exact absurd trivial he
  | .receive (some q) =>
    simp only [Expected, Classical.not_imp] at he
    obtain ⟨hpc, hcomplete, hmiss⟩ := he
    simp only [Send.step, hpc, Send.drainReceive, hcomplete, addrsRemove_snd, if_true]
    split
    · exact List.cons_ne_nil _ _
    · rename_i hunf
      split
      · exact List.cons_ne_nil _ _
      · rename_i hreq
        exact absurd ⟨by simpa using hunf, by simpa using hreq⟩ hmiss

theorem start_accounted {progressArray packetData : ℕ → UInt8} (hnodup : c.targets.Nodup)
    (hstart : mupgradeFirmwareSend c progressArray packetData = some s) :
    s.Accounted c ∧ s.held = [] := by
  unfold mupgradeFirmwareSend at hstart
  split at hstart
  · rw [← Option.some.inj hstart]
    exact ⟨.start hnodup, rfl⟩
  · cases hstart

end Runs

/-- **The distribution.** In whatever state a run of `mupgrade_firmware_send` is, at its exit as
before, no device is lost exactly when every completion taken from the queue among the packets
came from a device that was in `unfinished_addr` and in `requested_addr`. -/
theorem no_device_lost (c : SendCall) (progressArray packetData : ℕ → UInt8) (s : Send)
    (hstart : mupgradeFirmwareSend c progressArray packetData = some s)
    (hnodup : c.targets.Nodup) (es : List SendEvent) :
    NothingLost c (run (Send.step c) s es) ↔ Along (Send.step c) Expected s es := by
  constructor
  · intro h
    exact along_of_no_sign step_unexpected step_held (not_not.mpr h.freed)
  · intro h
    obtain ⟨hacc, hheld⟩ := run_invariant_along step_accounted (start_accounted hnodup hstart) h
    exact ⟨hacc.todo_nodup, hacc.finished_nodup, hacc.disjoint, hacc.mem_iff, hheld⟩

/-! ## Two distributions -/

/-- A firmware of one packet for the devices 0a:.. and 0b:... -/
def callOfTwo : SendCall where
  addrsList := [macOf 10, macOf 11]
  addrIsEmpty := false
  addrIsAny := false
  addrIsBroadcast := false
  routingTableSize := 3
  routingTable := []
  routingTableOk := true
  rootMac := macOf 2
  firmwareFinished := true
  totalSize := 1024
  partition := fun _ => 0
  mdfErrMupgradeBase := 0

def sendOfTwo : Send := (mupgradeFirmwareSend callOfTwo (fun _ => 0) (fun _ => 0)).get rfl

def statusOf (b : UInt8) (written : ℕ) : StatusMessage :=
  ⟨macOf b, 0, 1024, written, fun _ => 0⟩

/-- Both devices answer the request and finish. -/
def bothAnswer : List SendEvent :=
  [.next, .receive none, .next, .receive (some (statusOf 10 0)), .receive (some (statusOf 11 0)),
    .next, .next, .flash true, .receive (some (statusOf 11 1024)),
    .receive (some (statusOf 10 1024)), .next, .receive none]

theorem no_device_lost_both :
    (run (Send.step callOfTwo) sendOfTwo bothAnswer).pc = .returned ∧
      NothingLost callOfTwo (run (Send.step callOfTwo) sendOfTwo bothAnswer) := by
  have hexpected : Along (Send.step callOfTwo) Expected sendOfTwo bothAnswer :=
    ⟨trivial, trivial, trivial, fun _ h => absurd h (by decide), fun _ h => absurd h (by decide),
      trivial, trivial, trivial, fun _ _ => ⟨by decide, by decide⟩,
      fun _ _ => ⟨by decide, by decide⟩, trivial, trivial, trivial⟩
  exact ⟨by decide, (no_device_lost callOfTwo (fun _ => 0) (fun _ => 0) sendOfTwo rfl (by decide)
    bothAnswer).mpr hexpected⟩

/-- The second device answers none of the requests; its completion comes among the packets. -/
def lateCompletion : List SendEvent :=
  [.next, .receive none, .next, .receive (some (statusOf 10 0)), .receive none, .next,
    .receive none, .next, .receive none, .next, .next, .flash true,
    .receive (some (statusOf 11 1024)), .receive none, .next, .next, .next,
    .receive (some (statusOf 10 1024)), .next, .receive none]

theorem late_completion_lost :
    (run (Send.step callOfTwo) sendOfTwo lateCompletion).pc = .returned ∧
      ¬ NothingLost callOfTwo (run (Send.step callOfTwo) sendOfTwo lateCompletion) := by
  refine ⟨by decide, fun h => ?_⟩
  have hmem := (h.covered (macOf 11)).mp (by decide)
  revert hmem
  decide

end EspMesh
