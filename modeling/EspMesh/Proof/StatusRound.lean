import EspMesh.Library.BitArray
import EspMesh.Proof.Distribution

/-! # A round of status requests

What counts of a device that was asked is its first message behind the request. A stop behind
this answer takes the device out of `unfinished_addr` only, any other message behind it is
dropped, and devices that are not done do not keep the round from ending well when all bits are
set.
-/

namespace EspMesh
set_option autoImplicit false
set_option maxRecDepth 20000
open ByteMem StepRuns

/-! ## The messages of a round -/

/-- In `mupgrade_request_status`. -/
def SendPc.requesting : SendPc → Bool
  | .finished | .request _ | .response _ => true
  | _ => false

/-- The packet with this number is missing, as far as the message says. -/
def StatusMessage.Names (q : StatusMessage) (k : ℕ) : Prop :=
  q.writtenSize = 0 ∨ q.writtenSize ≠ q.totalSize ∧ BitArray.get q.progressArray k = false

/-- The messages in front of the request, the devices asked, and the messages behind it, in the
order in which they came. -/
structure Round where
  early : List StatusMessage
  asked : List Mac
  responses : List StatusMessage

def Round.start : Round := ⟨[], [], []⟩

def noteRound (r : Round) (s : Send) : SendEvent → Round
  | .receive msg =>
    match s.pc, msg with
    | .finished, some q => { r with early := r.early ++ [q] }
    | .finished, none => { r with asked := s.unfinishedAddr }
    | .response _, some q => { r with responses := r.responses ++ [q] }
    | _, _ => r
  | .next => if s.pc = .round then .start else r
  | _ => r

namespace Round
variable (c : SendCall) (r : Round)

def first (a : Mac) : Option StatusMessage := r.responses.find? fun q => decide (q.srcAddr = a)

/-- The device was asked, and its first message behind the request is this one and no stop. -/
structure Answer (a : Mac) (q : StatusMessage) : Prop where
  asked : a ∈ r.asked
  first : r.first a = some q
  goes : q.errorCode ≠ c.mdfErrMupgradeStop

/-- The device has answered that it is not done. -/
def Requested (a : Mac) : Prop := ∃ q, r.Answer c a q ∧ q.writtenSize ≠ q.totalSize

def Done (a : Mac) : Prop :=
  ∃ q, r.Answer c a q ∧ q.writtenSize = q.totalSize ∧ q.writtenSize ≠ 0

def Stopped (a : Mac) : Prop :=
  ∃ q ∈ r.responses, q.srcAddr = a ∧ q.errorCode = c.mdfErrMupgradeStop

/-- An answer names the packet as missing. -/
def Missing (k : ℕ) : Prop := ∃ a q, r.Answer c a q ∧ q.Names k

/-- What a round has to have done when it returns. -/
structure AsksRight (s : Send) : Prop where
  nodup : s.requestedAddr.Nodup
  unfinished : s.requestedAddr ⊆ s.unfinishedAddr
  missing : ∀ a ∈ s.requestedAddr, ∃ q, r.Answer c a q ∧
    ∀ k < mupgradePacketMaxNum, q.Names k → BitArray.get s.progressArray.byte k = false
  ok : s.pc = .exit → s.unfinishedAddr = []

/-- Not only what a requested device has answered counts, but every message from it. -/
def HearsAll (s : Send) : Prop := ∀ q ∈ r.early ++ r.responses, q.srcAddr ∈ s.requestedAddr →
  ∀ k < mupgradePacketMaxNum, q.Names k → BitArray.get s.progressArray.byte k = false

/-- No device that has answered that it is not done stops, and where every device asked has been
heard and no packet is named, no answer says that its device is not done. -/
structure Plain : Prop where
  stop : ∀ a, r.Requested c a → ¬ r.Stopped c a
  done : (∀ a ∈ r.asked, r.first a ≠ none) →
    (∀ k < mupgradePacketMaxNum, ¬ r.Missing c k) → ∀ a, ¬ r.Requested c a

/-- What a device that has answered that it is not done names in another message, some answer
names too. -/
def Agrees : Prop := ∀ q ∈ r.early ++ r.responses, r.Requested c q.srcAddr →
  ∀ k < mupgradePacketMaxNum, q.Names k → r.Missing c k

end Round

/-! ## One more response -/

section Responses
variable {c : SendCall} {r : Round} {q : StatusMessage} {a : Mac}

def Round.respond (r : Round) (q : StatusMessage) : Round :=
  { r with responses := r.responses ++ [q] }

theorem first_respond (r : Round) (q : StatusMessage) (a : Mac) :
    (r.respond q).first a = (r.first a).or (if q.srcAddr = a then some q else none) := by
  rw [Round.first, Round.respond, List.find?_append, Round.first, List.find?_singleton]
  by_cases h : q.srcAddr = a <;> simp [h]

theorem first_respond_none :
    (r.respond q).first a = none ↔ r.first a = none ∧ q.srcAddr ≠ a := by
  rw [first_respond, Option.or_eq_none_iff]
  by_cases h : q.srcAddr = a <;> simp [h]

/-- The message is the answer of its device. -/
structure Round.Accepts (c : SendCall) (r : Round) (q : StatusMessage) : Prop where
  asked : q.srcAddr ∈ r.asked
  fresh : r.first q.srcAddr = none
  goes : q.errorCode ≠ c.mdfErrMupgradeStop

theorem answer_respond (p : StatusMessage) :
    (r.respond q).Answer c a p ↔ r.Answer c a p ∨ r.Accepts c q ∧ a = q.srcAddr ∧ p = q := by
  constructor
  · rintro ⟨hasked, hfirst, hgoes⟩
    rw [first_respond] at hfirst
    cases hr : r.first a with
    | some p' =>
      rw [hr, Option.some_or] at hfirst
      exact .inl ⟨hasked, hr.trans hfirst, hgoes⟩
    | none =>
      rw [hr, Option.none_or] at hfirst
      split at hfirst
      · next hsrc =>
        obtain rfl := Option.some.inj hfirst
        exact .inr ⟨⟨hsrc ▸ hasked, hsrc ▸ hr, hgoes⟩, hsrc.symm, rfl⟩
      · cases hfirst
  · rintro (⟨hasked, hfirst, hgoes⟩ | ⟨⟨hasked, hfresh, hgoes⟩, rfl, rfl⟩)
    · exact ⟨hasked, by rw [first_respond, hfirst, Option.some_or], hgoes⟩
    · exact ⟨hasked, by rw [first_respond, hfresh, Option.none_or, if_pos rfl], hgoes⟩

/-- What the answer of a device says. -/
theorem exists_answer_respond (P : StatusMessage → Prop) :
    (∃ p, (r.respond q).Answer c a p ∧ P p) ↔
      (∃ p, r.Answer c a p ∧ P p) ∨ r.Accepts c q ∧ a = q.srcAddr ∧ P q := by
  simp only [answer_respond]
  constructor
  · rintro ⟨p, hp | ⟨hacc, ha, rfl⟩, hP⟩
    · exact .inl ⟨p, hp, hP⟩
    · exact .inr ⟨hacc, ha, hP⟩
  · rintro (⟨p, hp, hP⟩ | ⟨hacc, ha, hP⟩)
    · exact ⟨p, .inl hp, hP⟩
    · exact ⟨q, .inr ⟨hacc, ha, rfl⟩, hP⟩

theorem requested_respond : (r.respond q).Requested c a ↔
    r.Requested c a ∨ r.Accepts c q ∧ a = q.srcAddr ∧ q.writtenSize ≠ q.totalSize :=
  exists_answer_respond _

theorem done_respond : (r.respond q).Done c a ↔ r.Done c a ∨
    r.Accepts c q ∧ a = q.srcAddr ∧ q.writtenSize = q.totalSize ∧ q.writtenSize ≠ 0 :=
  exists_answer_respond _

theorem missing_respond (k : ℕ) :
    (r.respond q).Missing c k ↔ r.Missing c k ∨ r.Accepts c q ∧ q.Names k := by
  simp only [Round.Missing, exists_answer_respond, exists_or]
  refine or_congr_right ⟨?_, ?_⟩
  · rintro ⟨a, hacc, -, hk⟩
    exact ⟨hacc, hk⟩
  · rintro ⟨hacc, hk⟩
    exact ⟨q.srcAddr, hacc, rfl, hk⟩

theorem stopped_respond : (r.respond q).Stopped c a ↔
    r.Stopped c a ∨ q.srcAddr = a ∧ q.errorCode = c.mdfErrMupgradeStop := by
  simp only [Round.Stopped, Round.respond, List.mem_append, List.mem_singleton, or_and_right,
    exists_or, exists_eq_left]

end Responses

/-! ## The answer of a device -/

section Progress
variable (q : StatusMessage) (s : Send)

theorem responseProgress_lists : (s.responseProgress q).requestAddrs = s.requestAddrs ∧
    (s.responseProgress q).requestedAddr = s.requestedAddr := by
  unfold Send.responseProgress
  dsimp only
  split
  · exact ⟨rfl, rfl⟩
  · split
    · split <;> exact ⟨rfl, rfl⟩
    · exact ⟨rfl, rfl⟩

theorem responseProgress_unfinished : (s.responseProgress q).unfinishedAddr =
    if q.writtenSize = q.totalSize ∧ q.writtenSize ≠ 0 then s.unfinishedAddr.erase q.srcAddr
    else s.unfinishedAddr := by
  unfold Send.responseProgress
  rw [addrsRemove_snd]
  by_cases hzero : q.writtenSize = 0
  · simp [hzero, Send.mdfFree]
  · by_cases hsize : q.writtenSize = q.totalSize
    · by_cases hmem : q.srcAddr ∈ s.unfinishedAddr
      · simp [hsize ▸ hzero, hsize, hmem, Send.mdfFree, Send.succeed, Send.removeUnfinished]
      · simp [hsize ▸ hzero, hsize, hmem, Send.mdfFree, List.erase_of_not_mem hmem]
    · simp [hzero, hsize, Send.mdfFree]

theorem get_store (m : Mem) (bs : List UInt8) (k : ℕ) (hk : k / 8 < bs.length) :
    BitArray.get (m.store 0 bs).byte k = BitArray.get (fun i => bs.getD i 0) k := by
  rw [BitArray.get, Mem.store_byte, if_pos ⟨Nat.zero_le _, by rwa [Nat.zero_add]⟩, Nat.sub_zero]
  rfl

theorem responseProgress_bits (k : ℕ) (hk : k < mupgradePacketMaxNum) :
    BitArray.get (s.responseProgress q).progressArray.byte k = true ↔
      BitArray.get s.progressArray.byte k = true ∧ ¬ q.Names k := by
  have hbyte : k / 8 < mupgradePacketMaxNum / 8 := by
    simp only [mupgradePacketMaxNum] at hk ⊢
    omega
  unfold Send.responseProgress StatusMessage.Names
  rw [addrsRemove_snd]
  dsimp only
  by_cases hzero : q.writtenSize = 0
  · rw [if_pos hzero]
    have hclear : BitArray.get (s.progressArray.fill 0 0 (mupgradePacketMaxNum / 8)).byte k =
        false := by
      rw [BitArray.get, Mem.fill_byte, if_pos ⟨Nat.zero_le _, by omega⟩]
      simp
    simp only [Send.mdfFree, hclear, hzero]
    simp
  · rw [if_neg hzero]
    by_cases hsize : q.writtenSize = q.totalSize
    · rw [if_pos hsize]
      have hsame : ∀ b : Bool, (if b then s.mdfFree else
          ((s.removeUnfinished q.srcAddr).succeed q.srcAddr).mdfFree).progressArray =
            s.progressArray := fun b => by cases b <;> rfl
      rw [hsame]
      simp [hsize ▸ hzero, hsize]
    · rw [if_neg hsize]
      have hand : BitArray.get (s.progressArray.store 0 ((List.range (mupgradePacketMaxNum / 8)).map
          fun i => s.progressArray.byte i &&& q.progressArray i)).byte k =
          (BitArray.get s.progressArray.byte k && BitArray.get q.progressArray k) := by
        rw [get_store _ _ _ (by simpa using hbyte), ← BitArray.get_and, BitArray.get, BitArray.get,
          List.getD_eq_getElem _ _ (by simpa using hbyte), List.getElem_map, List.getElem_range]
      simp only [Send.mdfFree, hand]
      simp [hzero, hsize]

/-- The message is taken for an answer. -/
def Send.Takes (c : SendCall) (s : Send) (q : StatusMessage) : Prop :=
  q.errorCode ≠ c.mdfErrMupgradeStop ∧ q.srcAddr ∈ s.requestAddrs

instance (c : SendCall) (s : Send) (q : StatusMessage) : Decidable (s.Takes c q) :=
  inferInstanceAs (Decidable (_ ∧ _))

theorem responseReceive_spec (c : SendCall) :
    (s.responseReceive c q).requestAddrs = s.requestAddrs.erase q.srcAddr ∧
      (s.responseReceive c q).requestedAddr =
        (if s.Takes c q ∧ q.writtenSize ≠ q.totalSize then s.requestedAddr ++ [q.srcAddr]
        else s.requestedAddr) ∧
      (s.responseReceive c q).unfinishedAddr =
        (if q.errorCode = c.mdfErrMupgradeStop ∨
            s.Takes c q ∧ q.writtenSize = q.totalSize ∧ q.writtenSize ≠ 0 then
          s.unfinishedAddr.erase q.srcAddr
        else s.unfinishedAddr) ∧
      ∀ k < mupgradePacketMaxNum,
        BitArray.get (s.responseReceive c q).progressArray.byte k = true ↔
          BitArray.get s.progressArray.byte k = true ∧ ¬ (s.Takes c q ∧ q.Names k) := by
  unfold Send.responseReceive
  rw [addrsRemove_snd]
  dsimp only
  by_cases hstop : q.errorCode = c.mdfErrMupgradeStop
  · have htakes : ¬ s.Takes c q := fun h => h.1 hstop
    simp only [htakes, false_and, if_false, hstop, true_or, if_true, not_false_eq_true,
      and_true, Send.mdfFree, Send.removeRequest, Send.removeUnfinished, Send.take, addrsRemove_fst,
      implies_true, and_self]
  · by_cases hmem : q.srcAddr ∈ s.requestAddrs
    · have htakes : s.Takes c q := ⟨hstop, hmem⟩
      simp only [hmem, decide_true, Bool.not_true, Bool.false_eq_true, if_false, htakes,
        true_and, hstop, false_or]
      obtain ⟨hreq, hrequested⟩ := responseProgress_lists q
        (if q.writtenSize ≠ q.totalSize then
          { (s.take c q).removeRequest q.srcAddr with
            requestedAddr := ((s.take c q).removeRequest q.srcAddr).requestedAddr ++ [q.srcAddr] }
        else (s.take c q).removeRequest q.srcAddr)
      refine ⟨?_, ?_, ?_, fun k hk => ?_⟩
      · rw [hreq]
        split <;> exact addrsRemove_fst _ _
      · rw [hrequested]
        split <;> rfl
      · rw [responseProgress_unfinished]
        split <;> split <;> rfl
      · rw [responseProgress_bits _ _ _ hk]
        split <;> rfl
    · have htakes : ¬ s.Takes c q := fun h => hmem h.2
      simp only [hmem, decide_false, Bool.not_false, if_true, htakes, false_and,
        if_false, hstop, or_false, not_false_eq_true, and_true, List.erase_of_not_mem,
        Send.mdfFree, Send.take, implies_true, and_self]

end Progress

/-! ## The state of a round -/

/-- Behind the request, the lists and the bits are what the messages say. -/
structure RoundState (c : SendCall) (s : Send) (r : Round) : Prop where
  waiting_nodup : s.requestAddrs.Nodup
  waiting : ∀ a, a ∈ s.requestAddrs ↔ a ∈ r.asked ∧ r.first a = none
  requested_nodup : s.requestedAddr.Nodup
  requested : ∀ a, a ∈ s.requestedAddr ↔ r.Requested c a
  unfinished_nodup : s.unfinishedAddr.Nodup
  unfinished : ∀ a, a ∈ s.unfinishedAddr ↔ a ∈ r.asked ∧ ¬ r.Stopped c a ∧ ¬ r.Done c a
  bits : ∀ k < mupgradePacketMaxNum,
    BitArray.get s.progressArray.byte k = true ↔ ¬ r.Missing c k

section States
variable {c : SendCall} {s : Send} {r : Round} {q : StatusMessage}

/-- Nothing else of the state matters. -/
theorem RoundState.congr (h : RoundState c s r) {s' : Send}
    (hrequest : s'.requestAddrs = s.requestAddrs) (hrequested : s'.requestedAddr = s.requestedAddr)
    (hunfinished : s'.unfinishedAddr = s.unfinishedAddr)
    (hprogress : s'.progressArray = s.progressArray) : RoundState c s' r := by
  obtain ⟨hnodup, hwaiting, hnodup', hasked, hnodup'', hleft, hbits⟩ := h
  refine ⟨?_, ?_, ?_, ?_, ?_, ?_, ?_⟩ <;> simpa only [hrequest, hrequested, hunfinished, hprogress]

theorem RoundState.takes_iff (h : RoundState c s r) : s.Takes c q ↔ r.Accepts c q := by
  rw [Send.Takes, h.waiting]
  exact ⟨fun ht => ⟨ht.2.1, ht.2.2, ht.1⟩, fun ha => ⟨ha.goes, ha.asked, ha.fresh⟩⟩

theorem Round.Accepts.unrequested (h : r.Accepts c q) : ¬ r.Requested c q.srcAddr := by
  rintro ⟨p, hp, -⟩
  have hfirst := hp.first
  rw [h.fresh] at hfirst
  cases hfirst

theorem responseReceive_waiting (h : RoundState c s r) (a : Mac) :
    a ∈ s.requestAddrs.erase q.srcAddr ↔
      a ∈ (r.respond q).asked ∧ (r.respond q).first a = none := by
  rw [h.waiting_nodup.mem_erase_iff, h.waiting, first_respond_none]
  exact ⟨fun hand => ⟨hand.2.1, hand.2.2, Ne.symm hand.1⟩,
    fun hand => ⟨Ne.symm hand.2.2, hand.1, hand.2.1⟩⟩

/-- The answer of a device adds it, if it is not done. -/
theorem responseReceive_requested (h : RoundState c s r) (q : StatusMessage) :
    (s.responseReceive c q).requestedAddr.Nodup ∧
      ∀ a, a ∈ (s.responseReceive c q).requestedAddr ↔ (r.respond q).Requested c a := by
  have hacc := h.takes_iff (q := q)
  rw [(responseReceive_spec q s c).2.1]
  simp only [requested_respond, ← h.requested, ← hacc]
  split
  · next htakes =>
    have hfresh : q.srcAddr ∉ s.requestedAddr := fun ha =>
      (hacc.mp htakes.1).unrequested ((h.requested _).mp ha)
    refine ⟨?_, fun a => ?_⟩
    · rw [← List.concat_eq_append]
      exact h.requested_nodup.concat hfresh
    · rw [List.mem_append, List.mem_singleton]
      exact or_congr_right ⟨fun ha => ⟨htakes.1, ha, htakes.2⟩, fun hand => hand.2.1⟩
  · next hkept =>
    refine ⟨h.requested_nodup, fun a => ⟨.inl, fun hor => ?_⟩⟩
    exact hor.resolve_right fun hand => hkept ⟨hand.1, hand.2.2⟩

/-- A stop removes its device, and an answer a device that is done. -/
theorem responseReceive_unfinished (h : RoundState c s r) (q : StatusMessage) :
    (s.responseReceive c q).unfinishedAddr.Nodup ∧
      ∀ a, a ∈ (s.responseReceive c q).unfinishedAddr ↔
        a ∈ (r.respond q).asked ∧ ¬ (r.respond q).Stopped c a ∧ ¬ (r.respond q).Done c a := by
  have hacc := h.takes_iff (q := q)
  rw [(responseReceive_spec q s c).2.2.1]
  simp only [stopped_respond, done_respond, not_or, ← hacc]
  split
  · next hgone =>
    refine ⟨h.unfinished_nodup.erase _, fun a => ?_⟩
    rw [h.unfinished_nodup.mem_erase_iff, h.unfinished]
    constructor
    · rintro ⟨hne, hasked, hstop, hdone⟩
      exact ⟨hasked, ⟨hstop, fun hand => hne hand.1.symm⟩, hdone, fun hand => hne hand.2.1⟩
    · rintro ⟨hasked, ⟨hstop, hstop'⟩, hdone, hdone'⟩
      refine ⟨?_, hasked, hstop, hdone⟩
      rintro rfl
      exact hgone.elim (fun hcode => hstop' ⟨rfl, hcode⟩) fun hand => hdone' ⟨hand.1, rfl, hand.2⟩
  · next hkept =>
    rw [not_or] at hkept
    refine ⟨h.unfinished_nodup, fun a => ?_⟩
    rw [h.unfinished]
    constructor
    · rintro ⟨hasked, hstop, hdone⟩
      exact ⟨hasked, ⟨hstop, fun hand => hkept.1 hand.2⟩, hdone,
        fun hand => hkept.2 ⟨hand.1, hand.2.2⟩⟩
    · rintro ⟨hasked, ⟨hstop, -⟩, hdone, -⟩
      exact ⟨hasked, hstop, hdone⟩

/-- **A response.** -/
theorem responseReceive_state (h : RoundState c s r) (q : StatusMessage) :
    RoundState c (s.responseReceive c q) (r.respond q) := by
  obtain ⟨hreq, -, -, hbits⟩ := responseReceive_spec q s c
  obtain ⟨hrequested_nodup, hrequested⟩ := responseReceive_requested h q
  obtain ⟨hunfinished_nodup, hunfinished⟩ := responseReceive_unfinished h q
  refine ⟨?_, fun a => ?_, hrequested_nodup, hrequested, hunfinished_nodup, hunfinished,
    fun k hk => ?_⟩
  · rw [hreq]
    exact h.waiting_nodup.erase _
  · rw [hreq]
    exact responseReceive_waiting h a
  · rw [hbits k hk, h.bits k hk, h.takes_iff, missing_respond, not_or]

/-- The device that answers that it is not done has not answered that it is. -/
theorem Round.Requested.not_done {a : Mac} (h : r.Requested c a) : ¬ r.Done c a := by
  obtain ⟨p, hp, hsize⟩ := h
  rintro ⟨p', hp', hsize', -⟩
  have hsame : p = p' := Option.some.inj (hp.first.symm.trans hp'.first)
  exact hsize (hsame ▸ hsize')

theorem RoundState.bit_iff (h : RoundState c s r) {k : ℕ} (hk : k < mupgradePacketMaxNum) :
    BitArray.get s.progressArray.byte k = false ↔ r.Missing c k := by
  rw [← Bool.not_eq_true, h.bits k hk, not_not]

theorem RoundState.heard_iff (h : RoundState c s r) :
    s.requestAddrs = [] ↔ ∀ a ∈ r.asked, r.first a ≠ none := by
  simp only [List.eq_nil_iff_forall_not_mem, h.waiting, not_and]

theorem RoundState.hearsAll_iff (h : RoundState c s r) : r.HearsAll s ↔ r.Agrees c := by
  refine forall₂_congr fun q hq => ?_
  rw [h.requested]
  refine forall_congr' fun _ => forall₂_congr fun k hk => ?_
  rw [h.bit_iff hk]

/-- Where every device asked has been heard and no packet is named, whoever is left has answered
that it is not done. -/
theorem RoundState.left_requested (h : RoundState c s r) (hall : ∀ a ∈ r.asked, r.first a ≠ none)
    (hnone : ∀ k < mupgradePacketMaxNum, ¬ r.Missing c k) {a : Mac} (ha : a ∈ s.unfinishedAddr) :
    r.Requested c a := by
  obtain ⟨hasked, hnot, hnotDone⟩ := (h.unfinished a).mp ha
  obtain ⟨p, hp⟩ := Option.ne_none_iff_exists'.mp (hall a hasked)
  have hmem : p ∈ r.responses := List.mem_of_find?_eq_some hp
  have hsrc : p.srcAddr = a := by simpa using List.find?_some hp
  have hanswer : r.Answer c a p := ⟨hasked, hp, fun hcode => hnot ⟨p, hmem, hsrc, hcode⟩⟩
  refine ⟨p, hanswer, fun hsize => ?_⟩
  by_cases hzero : p.writtenSize = 0
  · exact hnone 0 (by decide) ⟨a, p, hanswer, .inl hzero⟩
  · exact hnotDone ⟨p, hanswer, hsize, hzero⟩

/-- **The end of a round.** -/
theorem RoundState.asksRight_iff (h : RoundState c s r)
    (hexit : s.pc = .exit ↔ s.requestAddrs = [] ∧
      ∀ k < mupgradePacketMaxNum, BitArray.get s.progressArray.byte k = true) :
    r.AsksRight c s ↔ r.Plain c := by
  constructor
  · rintro ⟨-, hsub, -, hok⟩
    refine ⟨fun a ha => ?_, fun hall hnone a ha => ?_⟩
    · exact ((h.unfinished a).mp (hsub ((h.requested a).mpr ha))).2.1
    · have hfull : ∀ k < mupgradePacketMaxNum, BitArray.get s.progressArray.byte k = true :=
        fun k hk => (h.bits k hk).mpr (hnone k hk)
      have hnil := hok (hexit.mpr ⟨h.heard_iff.mpr hall, hfull⟩)
      have hmem := hsub ((h.requested a).mpr ha)
      rw [hnil] at hmem
      cases hmem
  · rintro ⟨hstop, hdone⟩
    refine ⟨h.requested_nodup, fun a ha => ?_, fun a ha => ?_, fun hpc => ?_⟩
    · have hreq := (h.requested a).mp ha
      have ⟨p, hp, _⟩ := hreq
      exact (h.unfinished a).mpr ⟨hp.asked, hstop a hreq, hreq.not_done⟩
    · obtain ⟨q, hq, -⟩ := (h.requested a).mp ha
      exact ⟨q, hq, fun k hk hnames => (h.bit_iff hk).mpr ⟨a, q, hq, hnames⟩⟩
    · obtain ⟨hnil, hfull⟩ := hexit.mp hpc
      have hall := h.heard_iff.mp hnil
      have hnone : ∀ k < mupgradePacketMaxNum, ¬ r.Missing c k := fun k hk =>
        (h.bits k hk).mp (hfull k hk)
      refine List.eq_nil_iff_forall_not_mem.mpr fun a ha => ?_
      exact hdone hall hnone a (h.left_requested hall hnone ha)

theorem prepareRequest_state (hnodup : s.unfinishedAddr.Nodup) (hrequested : s.requestedAddr = [])
    (hresponses : r.responses = []) :
    RoundState c s.prepareRequest { r with asked := s.unfinishedAddr } := by
  have hfirst : ∀ a, Round.first { r with asked := s.unfinishedAddr } a = none := fun a => by
    rw [Round.first, hresponses]
    rfl
  have hanswer : ∀ a p, ¬ Round.Answer c { r with asked := s.unfinishedAddr } a p := by
    intro a p hp
    have hnone := hp.first
    rw [hfirst] at hnone
    cases hnone
  refine ⟨hnodup, fun a => ?_, ?_, fun a => ?_, hnodup, fun a => ?_, fun k hk => ?_⟩
  · exact ⟨fun ha => ⟨ha, hfirst a⟩, And.left⟩
  · exact hrequested ▸ List.nodup_nil
  · refine iff_of_false (fun ha => ?_) fun ⟨p, hp, _⟩ => hanswer a p hp
    rw [show s.prepareRequest.requestedAddr = s.requestedAddr from rfl, hrequested] at ha
    cases ha
  · refine ⟨fun ha => ⟨ha, fun ⟨p, hp, _⟩ => ?_, fun ⟨p, hp, _⟩ => hanswer a p hp⟩, And.left⟩
    rw [show Round.responses { r with asked := s.unfinishedAddr } = r.responses from rfl,
      hresponses] at hp
    cases hp
  · refine iff_of_true ?_ fun ⟨a, p, hp, _⟩ => hanswer a p hp
    have hfull := (BitArray.get_full s.prepareRequest.progressArray.byte
      (mupgradePacketMaxNum / 8)).mpr fun i hi => ?_
    · exact hfull k hk
    · exact (Mem.fill_byte _ _ _ _ _).trans (if_pos ⟨Nat.zero_le _, by rwa [Nat.zero_add]⟩)

end States

/-! ## Steps -/

/-- Behind the first receive of `mupgrade_request_status`. -/
def SendPc.behind : SendPc → Bool
  | .request _ | .response _ => true
  | _ => false

theorem requesting_of_behind {pc : SendPc} (h : pc.behind = true) : pc.requesting = true := by
  cases pc with
  | request i | response i => rfl
  | round | finished | packet | flash | drain | write | exit | empty | returned => cases h

/-- The step returns from `mupgrade_request_status`. -/
def Returns (c : SendCall) (s : Send) (e : SendEvent) : Prop :=
  s.pc.requesting = true ∧ (s.step c e).pc.requesting = false

/-- What is said of a round and of the state at its return. -/
def AtReturn (c : SendCall) (P : Round → Send → Prop) (w : Send × Round) (e : SendEvent) : Prop :=
  Returns c w.1 e → P (noteRound w.2 w.1 e) (w.1.step c e)

/-- The function and its round. -/
structure RoundInv (c : SendCall) (w : Send × Round) : Prop where
  unfinished_nodup : w.1.unfinishedAddr.Nodup
  entered : w.1.pc = .finished →
    w.1.requestedAddr = [] ∧ w.2.asked = [] ∧ w.2.responses = []
  behind : w.1.pc.behind = true → RoundState c w.1 w.2

section Steps
variable {c : SendCall} {s : Send} {r : Round}

theorem step_unfinished_nodup (e : SendEvent) (h : s.unfinishedAddr.Nodup) :
    (s.step c e).unfinishedAddr.Nodup := by
  rcases step_effect c s e with hsame | ⟨q, -, h' | ⟨-, h'⟩ | ⟨-, h'⟩ | ⟨-, h'⟩⟩
  · rwa [(Ledger.mk.inj hsame).1]
  · rwa [(Ledger.mk.inj h').1]
  · exact (Ledger.mk.inj h').1 ▸ h.erase _
  · exact (Ledger.mk.inj h').1 ▸ h.erase _
  · exact (Ledger.mk.inj h').1 ▸ h.erase _

theorem exitIfFinished_spec (s : Send) : s.exitIfFinished.requestedAddr = s.requestedAddr ∧
    (s.exitIfFinished.pc = s.pc ∨
      s.exitIfFinished.pc = .exit ∧ s.exitIfFinished.unfinishedAddr = []) := by
  unfold Send.exitIfFinished
  split
  · next hnil => exact ⟨rfl, .inr ⟨rfl, hnil⟩⟩
  · exact ⟨rfl, .inl rfl⟩

theorem finishedReceive_spec (s : Send) (q : StatusMessage) :
    (s.finishedReceive c q).requestedAddr = s.requestedAddr ∧
      ((s.finishedReceive c q).pc = s.pc ∨
        (s.finishedReceive c q).pc = .exit ∧ (s.finishedReceive c q).unfinishedAddr = []) := by
  unfold Send.finishedReceive
  dsimp only
  split
  · split
    · exact ⟨rfl, .inl rfl⟩
    · exact exitIfFinished_spec _
  · split
    · exact exitIfFinished_spec _
    · exact exitIfFinished_spec _

theorem responseReceive_pc (s : Send) (q : StatusMessage) :
    (s.responseReceive c q).pc = s.pc := by
  unfold Send.responseReceive Send.responseProgress
  dsimp only
  repeat' split
  all_goals rfl

theorem drainReceive_pc (s : Send) (q : StatusMessage) :
    (s.drainReceive c q).pc = s.pc ∨ (s.drainReceive c q).pc = .exit := by
  have hexit : ∀ s' : Send, s'.pc = s.pc → s'.exitIfFinished.pc = s.pc ∨
      s'.exitIfFinished.pc = .exit := fun s' hs' =>
    (exitIfFinished_spec s').2.imp (fun h => h.trans hs') And.left
  unfold Send.drainReceive
  dsimp only
  split
  · split
    · exact .inl rfl
    · split
      · exact .inl rfl
      · exact hexit _ rfl
  · split
    · exact hexit _ rfl
    · exact hexit _ rfl

theorem responseNext_spec (s : Send) (i : ℕ) : s.responseNext i = s ∨
    s.responseNext i = { s with pc := .request (i + 1) } := by
  unfold Send.responseNext
  split
  · exact .inr rfl
  · exact .inl rfl

theorem RoundState.requestHead (h : RoundState c s r) (i : ℕ) :
    RoundState c (s.requestHead i) r := by
  unfold Send.requestHead
  split
  · exact h.congr rfl rfl rfl rfl
  · split <;> exact h.congr rfl rfl rfl rfl

theorem requestHead_exit {i : ℕ} (hback : (s.requestHead i).pc.requesting = false) :
    (s.requestHead i).pc = .exit ↔ (s.requestHead i).requestAddrs = [] ∧
      ∀ k < mupgradePacketMaxNum, BitArray.get (s.requestHead i).progressArray.byte k = true := by
  have hfull := BitArray.get_full s.progressArray.byte (mupgradePacketMaxNum / 8)
  unfold Send.requestHead at hback ⊢
  split
  · next hmore =>
    rw [if_pos hmore] at hback
    cases hback
  · split
    · next hall => exact iff_of_true rfl ⟨hall.1, hfull.mpr hall.2⟩
    · next hpart => exact iff_of_false (by simp) fun hall => hpart ⟨hall.1, hfull.mp hall.2⟩

theorem responseReceive_behind {i : ℕ} (hpc : s.pc = .response i) (q : StatusMessage) :
    ((s.responseReceive c q).responseNext i).pc.behind = true := by
  rcases responseNext_spec (s.responseReceive c q) i with h | h
  · rw [h, responseReceive_pc, hpc]
    rfl
  · rw [h]
    rfl

/-- Outside, only the head of the loop over the retries leads into the function. -/
theorem step_outside (hpc : s.pc.requesting = false) (e : SendEvent)
    (hround : s.pc ≠ .round ∨ e ≠ .next) : (s.step c e).pc.requesting = false := by
  cases e with
  | receive msg =>
    cases hs : s.pc with
    | drain =>
      cases msg with
      | none => simp only [Send.step, hs, SendPc.requesting]
      | some q =>
        simp only [Send.step, hs]
        rcases drainReceive_pc s q with h | h
        · rwa [h]
        · rw [h]
          rfl
    | empty =>
      cases msg with
      | none => simp only [Send.step, hs, SendPc.requesting]
      | some q => simp only [Send.step, hs, Send.mdfFree, Send.take, SendPc.requesting]
    | finished | request i | response i =>
      rw [hs] at hpc
      cases hpc
    | round | packet | flash | write | exit | returned =>
      simp only [Send.step, hs, SendPc.requesting]
  | flash ok =>
    simp only [Send.step]
    split
    · cases ok <;> rfl
    · exact hpc
  | next =>
    cases hs : s.pc with
    | round => exact absurd rfl (hround.resolve_left (not_not.mpr hs))
    | packet =>
      simp only [Send.step, hs, Send.packetHead]
      split
      · split <;> rfl
      · rfl
    | finished | request i | response i =>
      rw [hs] at hpc
      cases hpc
    | flash | drain | write | exit | empty | returned =>
      simp only [Send.step, hs, Send.packetWrite, Send.atExit, SendPc.requesting]
  | stop => exact hpc

theorem RoundState.roundInv (h : RoundState c s r) (hpc : s.pc ≠ .finished) :
    RoundInv c (s, r) :=
  ⟨h.unfinished_nodup, fun hs => absurd hs hpc, fun _ => h⟩

theorem roundInv_outside (hnodup : s.unfinishedAddr.Nodup) (hpc : s.pc.requesting = false) :
    RoundInv c (s, r) := by
  refine ⟨hnodup, fun hs => ?_, fun hs => ?_⟩
  · dsimp only at hs
    rw [hs] at hpc
    cases hpc
  · dsimp only at hs
    rw [requesting_of_behind hs] at hpc
    cases hpc

theorem roundHead_inv (hnodup : s.unfinishedAddr.Nodup) : RoundInv c (s.roundHead, .start) := by
  unfold Send.roundHead
  split
  · exact ⟨hnodup, fun _ => ⟨rfl, rfl, rfl⟩, fun hs => by cases hs⟩
  · exact roundInv_outside hnodup rfl

theorem finished_inv (h : RoundInv c (s, r)) (hpc : s.pc = .finished) (e : SendEvent) :
    RoundInv c (s.step c e, noteRound r s e) := by
  obtain ⟨hrequested, hasked, hresponses⟩ := h.entered hpc
  have hnodup := step_unfinished_nodup (c := c) e h.unfinished_nodup
  cases e with
  | receive msg =>
    cases msg with
    | none =>
      simp only [Send.step, noteRound, hpc]
      refine (prepareRequest_state h.unfinished_nodup hrequested hresponses).roundInv ?_
      intro hs
      cases hs
    | some q =>
      simp only [Send.step, noteRound, hpc] at hnodup ⊢
      obtain ⟨hsame, hs | ⟨hs, -⟩⟩ := finishedReceive_spec (c := c) s q
      · refine ⟨hnodup, fun _ => ⟨hsame.trans hrequested, hasked, hresponses⟩, fun hbehind => ?_⟩
        rw [hs, hpc] at hbehind
        cases hbehind
      · exact roundInv_outside hnodup (by rw [hs]; rfl)
  | flash ok => simpa only [Send.step, noteRound, hpc, reduceCtorEq, if_false] using h
  | next => simpa only [Send.step, noteRound, hpc, reduceCtorEq, if_false] using h
  | stop =>
    exact ⟨h.unfinished_nodup, fun _ => ⟨hrequested, hasked, hresponses⟩,
      fun hs => (h.behind hs).congr rfl rfl rfl rfl⟩

theorem request_inv (h : RoundState c s r) {i : ℕ} (hpc : s.pc = .request i) (e : SendEvent) :
    RoundInv c (s.step c e, noteRound r s e) := by
  have hsame : RoundInv c (s, r) := h.roundInv (by simp [hpc])
  cases e with
  | receive msg => cases msg <;> simpa only [Send.step, noteRound, hpc] using hsame
  | flash ok => simpa only [Send.step, noteRound, hpc, reduceCtorEq, if_false] using hsame
  | next =>
    simp only [Send.step, noteRound, hpc, reduceCtorEq, if_false]
    refine (h.requestHead i).roundInv ?_
    unfold Send.requestHead
    split
    · simp
    · split <;> simp
  | stop =>
    have hstop : RoundState c { s with gMupgradeSendRunningFlag := false } r :=
      h.congr rfl rfl rfl rfl
    exact hstop.roundInv (by simp [hpc])

theorem response_inv (h : RoundState c s r) {i : ℕ} (hpc : s.pc = .response i) (e : SendEvent) :
    RoundInv c (s.step c e, noteRound r s e) := by
  have hsame : RoundInv c (s, r) := h.roundInv (by simp [hpc])
  cases e with
  | receive msg =>
    cases msg with
    | none =>
      simp only [Send.step, noteRound, hpc]
      have hnext : RoundState c { s with pc := .request (i + 1) } r := h.congr rfl rfl rfl rfl
      exact hnext.roundInv (by simp)
    | some q =>
      simp only [Send.step, noteRound, hpc]
      have hbehind := responseReceive_behind (c := c) hpc q
      refine RoundState.roundInv ?_ fun hs => by rw [hs] at hbehind; cases hbehind
      have hstate := responseReceive_state h q
      rcases responseNext_spec (s.responseReceive c q) i with hs | hs
      · rw [hs]
        exact hstate
      · rw [hs]
        exact hstate.congr rfl rfl rfl rfl
  | flash ok => simpa only [Send.step, noteRound, hpc, reduceCtorEq, if_false] using hsame
  | next => simpa only [Send.step, noteRound, hpc, reduceCtorEq, if_false] using hsame
  | stop =>
    have hstop : RoundState c { s with gMupgradeSendRunningFlag := false } r :=
      h.congr rfl rfl rfl rfl
    exact hstop.roundInv (by simp [hpc])

/-- **A step of a round.** -/
theorem roundInv_step (w : Send × Round) (e : SendEvent) (h : RoundInv c w) :
    RoundInv c (observe (Send.step c) noteRound w e) := by
  obtain ⟨s, r⟩ := w
  have hnodup := step_unfinished_nodup (c := c) e h.unfinished_nodup
  cases hpc : s.pc with
  | finished => exact finished_inv h hpc e
  | request i => exact request_inv (h.behind (by rw [hpc]; rfl)) hpc e
  | response i => exact response_inv (h.behind (by rw [hpc]; rfl)) hpc e
  | round =>
    by_cases hnext : e = .next
    · subst hnext
      simp only [observe, Send.step, noteRound, hpc, if_true]
      exact roundHead_inv h.unfinished_nodup
    · exact roundInv_outside hnodup (step_outside (by rw [hpc]; rfl) e (.inr hnext))
  | packet | flash | drain | write | exit | empty | returned =>
    exact roundInv_outside hnodup (step_outside (by rw [hpc]; rfl) e (.inl (by simp [hpc])))

/-! ## Returns -/

theorem returns_cases {e : SendEvent} (h : Returns c s e) :
    (∃ q, s.pc = .finished ∧ e = .receive (some q)) ∨ ∃ i, s.pc = .request i ∧ e = .next := by
  obtain ⟨hin, hout⟩ := h
  cases hpc : s.pc with
  | finished =>
    cases e with
    | receive msg =>
      cases msg with
      | none => simp [Send.step, hpc, Send.prepareRequest, SendPc.requesting] at hout
      | some q => exact .inl ⟨q, rfl, rfl⟩
    | flash ok | next | stop => simp [Send.step, hpc, SendPc.requesting] at hout
  | request i =>
    cases e with
    | next => exact .inr ⟨i, rfl, rfl⟩
    | receive msg => cases msg <;> simp [Send.step, hpc, SendPc.requesting] at hout
    | flash ok | stop => simp [Send.step, hpc, SendPc.requesting] at hout
  | response i =>
    cases e with
    | receive msg =>
      cases msg with
      | none => simp [Send.step, hpc, SendPc.requesting] at hout
      | some q =>
        have hbehind := responseReceive_behind (c := c) hpc q
        simp only [Send.step, hpc, requesting_of_behind hbehind, Bool.true_eq_false] at hout
    | flash ok | next | stop => simp [Send.step, hpc, SendPc.requesting] at hout
  | round | packet | flash | drain | write | exit | empty | returned =>
    simp [hpc, SendPc.requesting] at hin

theorem return_iff (h : RoundInv c (s, r)) {e : SendEvent} (hback : Returns c s e) :
    ((noteRound r s e).AsksRight c (s.step c e) ↔ (noteRound r s e).Plain c) ∧
      ((noteRound r s e).HearsAll (s.step c e) ↔ (noteRound r s e).Agrees c) := by
  rcases returns_cases hback with ⟨q, hpc, rfl⟩ | ⟨i, hpc, rfl⟩
  · -- Nobody has been asked.
    obtain ⟨hrequested, hasked, -⟩ := h.entered hpc
    have hout := hback.2
    simp only [Send.step, noteRound, hpc] at hout ⊢
    obtain ⟨hsame, hs | ⟨-, hnil⟩⟩ := finishedReceive_spec (c := c) s q
    · rw [hs, hpc] at hout
      cases hout
    · have hnobody : ∀ a, ¬ Round.Requested c { r with early := r.early ++ [q] } a := by
        rintro a ⟨p, hp, -⟩
        exact List.not_mem_nil (hasked ▸ hp.asked)
      have hnone : (s.finishedReceive c q).requestedAddr = [] := hsame.trans hrequested
      refine ⟨iff_of_true ⟨?_, ?_, ?_, fun _ => hnil⟩ ⟨?_, ?_⟩, iff_of_true ?_ ?_⟩
      · exact hnone ▸ List.nodup_nil
      · exact hnone ▸ List.nil_subset _
      · exact fun a ha => absurd (hnone ▸ ha) List.not_mem_nil
      · exact fun a ha => absurd ha (hnobody a)
      · exact fun _ _ a => hnobody a
      · exact fun p _ hp => absurd (hnone ▸ hp) List.not_mem_nil
      · exact fun p _ hp => absurd hp (hnobody _)
  · have hout := hback.2
    have hstate := (h.behind (by rw [hpc]; rfl)).requestHead i
    simp only [Send.step, noteRound, hpc, reduceCtorEq, if_false] at hout ⊢
    exact ⟨hstate.asksRight_iff (requestHead_exit hout), hstate.hearsAll_iff⟩

end Steps

/-- `mupgrade_request_status` is called. -/
def Send.requestStatus (s : Send) : Send := { s with requestedAddr := [], pc := .finished }

/-- **The status rounds.** In a run of the function from a call of `mupgrade_request_status` on,
each round asks the right devices for the right packets exactly when no device that has answered
that it is not done stops, and no answer without a missing packet says that its device is not
done. What such a device says besides its answer is heard too exactly when the answers say it. -/
theorem status_round_asks_right (c : SendCall) (s : Send) (hnodup : s.unfinishedAddr.Nodup)
    (es : List SendEvent) :
    (Along (observe (Send.step c) noteRound) (AtReturn c fun r s' => r.AsksRight c s')
        (s.requestStatus, .start) es ↔
      Along (observe (Send.step c) noteRound) (AtReturn c fun r _ => r.Plain c)
        (s.requestStatus, .start) es) ∧
    (Along (observe (Send.step c) noteRound)
        (AtReturn c fun r s' => r.AsksRight c s' ∧ r.HearsAll s') (s.requestStatus, .start) es ↔
      Along (observe (Send.step c) noteRound) (AtReturn c fun r _ => r.Plain c ∧ r.Agrees c)
        (s.requestStatus, .start) es) := by
  have hstart : RoundInv c (s.requestStatus, .start) :=
    ⟨hnodup, fun _ => ⟨rfl, rfl, rfl⟩, fun hs => by cases hs⟩
  constructor
  · refine along_iff_along (I := RoundInv c) (fun w e hw _ => roundInv_step w e hw)
      (fun w e hw => ?_) hstart
    exact forall_congr' fun hback => (return_iff hw hback).1
  · refine along_iff_along (I := RoundInv c) (fun w e hw _ => roundInv_step w e hw)
      (fun w e hw => ?_) hstart
    exact forall_congr' fun hback =>
      and_congr (return_iff hw hback).1 (return_iff hw hback).2

/-! ## Two rounds -/

def answersOfTwo : List SendEvent :=
  [.receive none, .next, .receive (some (statusOf 10 0)), .receive (some (statusOf 11 0)), .next]

theorem status_round_asks_right_two :
    (run (Send.step callOfTwo) sendOfTwo.requestStatus answersOfTwo).requestedAddr =
        [macOf 10, macOf 11] ∧
      Along (observe (Send.step callOfTwo) noteRound)
        (AtReturn callOfTwo fun r s' => r.AsksRight callOfTwo s') (sendOfTwo.requestStatus, .start)
        answersOfTwo := by
  refine ⟨by decide, (status_round_asks_right callOfTwo sendOfTwo (by decide)
    answersOfTwo).1.mpr ?_⟩
  refine ⟨fun h => absurd h.2 (by decide), fun h => absurd h.2 (by decide),
    fun h => absurd h.2 (by decide), fun h => absurd h.2 (by decide), fun _ => ⟨?_, ?_⟩, trivial⟩
  · rintro a - ⟨q, hq, -, hcode⟩
    change q ∈ [statusOf 10 0, statusOf 11 0] at hq
    rw [List.mem_cons, List.mem_singleton] at hq
    rcases hq with rfl | rfl
    · exact absurd hcode (by decide)
    · exact absurd hcode (by decide)
  · intro _ hnone
    exact absurd ⟨macOf 10, statusOf 10 0, ⟨List.mem_cons_self .., rfl, by decide⟩, .inl rfl⟩
      (hnone 0 (by decide))

/-- The first device stops behind its answer. -/
def lateStop : List SendEvent :=
  [.receive none, .next, .receive (some (statusOf 10 0)),
    .receive (some { statusOf 10 0 with errorCode := 10 }), .receive (some (statusOf 11 0)), .next]

theorem late_stop_requested :
    (run (Send.step callOfTwo) sendOfTwo.requestStatus lateStop).requestedAddr =
        [macOf 10, macOf 11] ∧
      (run (Send.step callOfTwo) sendOfTwo.requestStatus lateStop).unfinishedAddr = [macOf 11] ∧
      ¬ Along (observe (Send.step callOfTwo) noteRound)
        (AtReturn callOfTwo fun r s' => r.AsksRight callOfTwo s') (sendOfTwo.requestStatus, .start)
        lateStop := by
  refine ⟨by decide, by decide, fun h => ?_⟩
  obtain ⟨-, -, -, -, -, hlast, -⟩ := h
  have hsub := (hlast ⟨by decide, by decide⟩).unfinished
  revert hsub
  decide

end EspMesh
