import EspMesh.Library.StepRuns
import EspMesh.Proof.UpgradeNet

/-! # `mupgrade_firmware_send` returns

What is left of the ten rounds bounds the moves the function still makes, with one more for each
message it takes from its queue. Once `mupgrade_firmware_stop` has cleared the flag, neither the
rounds nor the packets count any more, and no message comes in.
-/

namespace EspMesh
set_option autoImplicit false
set_option maxRecDepth 20000
open ByteMem StepRuns

/-! ## Moves -/

/-- The function goes on by itself. -/
def SendPc.goes : SendPc → Bool
  | .round | .request _ | .packet | .write | .exit => true
  | _ => false

/-- The event is the one that the function waits for, or it goes on. -/
def Session.moves (s : Session) : SessionEvent → Bool
  | .receive => s.send.pc.receives
  | .flash _ => decide (s.send.pc = .flash)
  | .next => s.send.pc.goes
  | .handle _ | .stop => false

/-- A message comes into the queue. -/
def Session.accepts (s : Session) : SessionEvent → Bool
  | .handle _ => s.send.gMupgradeSendRunningFlag && decide (s.queue.length < 3)
  | _ => false

/-! ## What is left -/

/-- At the head of the loop over the retries, all rounds still to come. -/
def SendCall.roundsLeft (c : SendCall) (running : Bool) (retry : ℕ) : ℕ :=
  if running then (mupgradeRetryCount - retry) * (4 * c.packetNum + 10) + 3 else 3

/-- In front of packet `seq`. -/
def SendCall.packetsLeft (c : SendCall) (running : Bool) (seq : ℕ) : ℕ :=
  if running then 4 * (c.packetNum - seq) else 0

def Send.rest (c : SendCall) (s : Send) : ℕ :=
  let running := s.gMupgradeSendRunningFlag
  let again := c.roundsLeft running (s.retry + 1)
  match s.pc with
  | .round => c.roundsLeft running s.retry
  | .finished => again + c.packetsLeft running 0 + 9
  | .request i => again + c.packetsLeft running 0 + 2 * (3 - i) + 2
  | .response i => again + c.packetsLeft running 0 + 2 * (3 - i) + 1
  | .packet => again + c.packetsLeft running s.seq + 1
  | .flash => again + c.packetsLeft running (s.seq + 1) + 4
  | .drain => again + c.packetsLeft running (s.seq + 1) + 3
  | .write => again + c.packetsLeft running (s.seq + 1) + 2
  | .exit => 2
  | .empty => 1
  | .returned => 0

/-- In one of the rounds. -/
def SendPc.inRound (pc : SendPc) : Bool := decide (pc = .finished) || pc.knowing

/-- The counters are in their ranges. -/
structure Placed (c : SendCall) (s : Send) : Prop where
  tried : s.pc.inRound = true → s.retry < mupgradeRetryCount
  request : ∀ i, s.pc = .request i → i ≤ 3
  response : ∀ i, s.pc = .response i → i < 3
  packet : s.pc.packing = true → s.seq < c.packetNum

section Steps
variable {c : SendCall} {s s' : Send} {q : StatusMessage}

theorem three_le_roundsLeft (c : SendCall) (running : Bool) (retry : ℕ) :
    3 ≤ c.roundsLeft running retry := by
  unfold SendCall.roundsLeft
  split <;> omega

theorem roundsLeft_next {retry : ℕ} (h : retry < mupgradeRetryCount) :
    c.roundsLeft true retry = c.roundsLeft true (retry + 1) + c.packetsLeft true 0 + 10 := by
  have hsplit : mupgradeRetryCount - retry = (mupgradeRetryCount - (retry + 1)) + 1 := by omega
  simp only [SendCall.roundsLeft, SendCall.packetsLeft, if_true, hsplit, Nat.succ_mul]
  omega

theorem packetsLeft_running {seq : ℕ} (h : seq < c.packetNum) :
    c.packetsLeft true seq = c.packetsLeft true (seq + 1) + 4 := by
  simp only [SendCall.packetsLeft, if_true]
  omega

/-! ## Messages -/

/-- The counters of the loops. -/
structure SameTurn (s s' : Send) : Prop where
  retry : s'.retry = s.retry
  seq : s'.seq = s.seq
  running : s'.gMupgradeSendRunningFlag = s.gMupgradeSendRunningFlag

theorem exitIfFinished_turn (h : SameTurn s s') : SameTurn s s'.exitIfFinished := by
  unfold Send.exitIfFinished
  split
  · exact ⟨h.retry, h.seq, h.running⟩
  · exact h

theorem finishedReceive_turn (c : SendCall) (q : StatusMessage) (s : Send) :
    SameTurn s (s.finishedReceive c q) := by
  unfold Send.finishedReceive
  dsimp only
  split
  · split
    · exact ⟨rfl, rfl, rfl⟩
    · exact exitIfFinished_turn ⟨rfl, rfl, rfl⟩
  · split
    · exact exitIfFinished_turn ⟨rfl, rfl, rfl⟩
    · exact exitIfFinished_turn ⟨rfl, rfl, rfl⟩

theorem responseReceive_turn (c : SendCall) (q : StatusMessage) (s : Send) :
    SameTurn s (s.responseReceive c q) := by
  unfold Send.responseReceive Send.responseProgress
  dsimp only
  repeat' split
  all_goals exact ⟨rfl, rfl, rfl⟩

theorem drainReceive_turn (c : SendCall) (q : StatusMessage) (s : Send) :
    SameTurn s (s.drainReceive c q) := by
  unfold Send.drainReceive
  dsimp only
  split
  · split
    · exact ⟨rfl, rfl, rfl⟩
    · split
      · exact ⟨rfl, rfl, rfl⟩
      · exact exitIfFinished_turn ⟨rfl, rfl, rfl⟩
  · split
    · exact exitIfFinished_turn ⟨rfl, rfl, rfl⟩
    · exact exitIfFinished_turn ⟨rfl, rfl, rfl⟩

/-- Behind a step: the counters, and no more left than `n`. -/
structure Left (c : SendCall) (n : ℕ) (s : Send) : Prop where
  placed : Placed c s
  rest : s.rest c ≤ n

theorem Left.mono {n m : ℕ} (h : Left c n s) (hle : n ≤ m) : Left c m s :=
  ⟨h.placed, h.rest.trans hle⟩

/-- Nothing but a message. -/
theorem SameTurn.left (h : SameTurn s s') (hplaced : Placed c s) (hpc : s'.pc = s.pc) :
    Left c (s.rest c) s' := by
  refine ⟨⟨?_, ?_, ?_, ?_⟩, ?_⟩
  · rw [hpc, h.retry]
    exact hplaced.tried
  · rw [hpc]
    exact hplaced.request
  · rw [hpc]
    exact hplaced.response
  · rw [hpc, h.seq]
    exact hplaced.packet
  · simp only [Send.rest, hpc, h.retry, h.seq, h.running, le_refl]

/-- Behind the rounds. -/
theorem left_outside {n : ℕ} (hround : s'.pc.inRound = false) (hrest : s'.rest c ≤ n) :
    Left c n s' := by
  have hknow : s'.pc.knowing = false := (Bool.or_eq_false_iff.mp hround).2
  refine ⟨⟨fun h => ?_, fun i h => ?_, fun i h => ?_, fun h => ?_⟩, hrest⟩
  · rw [hround] at h
    cases h
  · rw [h] at hknow
    cases hknow
  · rw [h] at hknow
    cases hknow
  · cases hpc : s'.pc with
    | flash | drain | write =>
      rw [hpc] at hknow
      cases hknow
    | round | finished | request i | response i | packet | exit | empty | returned =>
      rw [hpc] at h
      cases h

theorem left_exit (hpc : s'.pc = .exit) : Left c 2 s' :=
  left_outside (by rw [hpc]; rfl) (by simp only [Send.rest, hpc, le_refl])

/-- Within a round. -/
theorem left_inside {n : ℕ} (hretry : s'.retry < mupgradeRetryCount)
    (hrequest : ∀ i, s'.pc = .request i → i ≤ 3) (hresponse : ∀ i, s'.pc = .response i → i < 3)
    (hpacket : s'.pc.packing = true → s'.seq < c.packetNum) (hrest : s'.rest c ≤ n) :
    Left c n s' :=
  ⟨⟨fun _ => hretry, hrequest, hresponse, hpacket⟩, hrest⟩

/-- In a round there is more left than the end of the function. -/
theorem three_le_rest (h : s.pc.inRound = true) : 3 ≤ s.rest c := by
  have hthree := three_le_roundsLeft c s.gMupgradeSendRunningFlag (s.retry + 1)
  cases hpc : s.pc with
  | finished | request i | response i | packet | flash | drain | write =>
    simp only [Send.rest, hpc]
    omega
  | round | exit | empty | returned =>
    rw [hpc] at h
    cases h

theorem left_message (h : SameTurn s s') (hplaced : Placed c s)
    (hround : s.pc.inRound = true) (hpc : s'.pc = s.pc ∨ s'.pc = .exit) :
    Left c (s.rest c) s' := by
  have hthree := three_le_rest (c := c) hround
  rcases hpc with hpc | hpc
  · exact h.left hplaced hpc
  · exact (left_exit hpc).mono (by omega)

theorem left_request (hplaced : Placed c s) {i : ℕ} (hpc : s.pc = .response i) :
    Left c (s.rest c - 1) { s with pc := .request (i + 1) } := by
  have hi := hplaced.response i hpc
  refine left_inside (hplaced.tried (by rw [hpc]; rfl)) (fun j hj => ?_) (fun _ hj => (by cases hj))
    (fun h => (by cases h)) ?_
  · cases hj
    omega
  · simp only [Send.rest, hpc]
    omega

/-- A message moves the function on only to the next request, or to the end. -/
theorem message_left (hplaced : Placed c s) (q : StatusMessage) :
    Left c (s.rest c) (s.step c (.receive (some q))) := by
  cases hpc : s.pc with
  | finished =>
    simp only [Send.step, hpc]
    refine left_message (finishedReceive_turn c q s) hplaced (by rw [hpc]; rfl) ?_
    exact (finishedReceive_spec s q).2.imp_right And.left
  | response i =>
    simp only [Send.step, hpc]
    have hturn := responseReceive_turn c q s
    have hsame := hturn.left hplaced (responseReceive_pc s q)
    rcases responseNext_spec (s.responseReceive c q) i with hnext | hnext
    · rw [hnext]
      exact hsame
    · rw [hnext]
      have hreq := left_request hsame.placed ((responseReceive_pc s q).trans hpc)
      exact hreq.mono ((Nat.sub_le _ _).trans hsame.rest)
  | drain =>
    simp only [Send.step, hpc]
    exact left_message (drainReceive_turn c q s) hplaced (by rw [hpc]; rfl) (drainReceive_pc s q)
  | empty =>
    simp only [Send.step, hpc]
    have hturn : SameTurn s (s.take c q).mdfFree := ⟨rfl, rfl, rfl⟩
    exact hturn.left hplaced rfl
  | round | request i | packet | flash | write | exit | returned =>
    simp only [Send.step, hpc]
    exact ⟨hplaced, le_refl _⟩

/-! ## Moves -/

/-- A timeout or an empty queue. -/
theorem timeout_left (hplaced : Placed c s) (hpc : s.pc.receives = true) :
    Left c (s.rest c - 1) (s.step c (.receive none)) := by
  cases hs : s.pc with
  | finished =>
    simp only [Send.step, hs]
    refine left_inside (hplaced.tried (by rw [hs]; rfl)) (fun i hi => ?_)
      (fun _ hi => (by cases hi)) (fun h => (by cases h)) ?_
    · cases hi
      omega
    · simp only [Send.rest, hs, Send.prepareRequest]
      omega
  | response i =>
    simp only [Send.step, hs]
    exact left_request hplaced hs
  | drain =>
    simp only [Send.step, hs]
    refine left_inside (hplaced.tried (by rw [hs]; rfl)) (fun _ hi => (by cases hi))
      (fun _ hi => (by cases hi)) (fun _ => hplaced.packet (by rw [hs]; rfl)) ?_
    simp only [Send.rest, hs]
    omega
  | empty =>
    simp only [Send.step, hs]
    exact left_outside rfl (by simp only [Send.rest, hs]; omega)
  | round | request i | packet | flash | write | exit | returned =>
    rw [hs] at hpc
    cases hpc

theorem flash_left (hplaced : Placed c s) (hpc : s.pc = .flash) (ok : Bool) :
    Left c (s.rest c - 1) (s.step c (.flash ok)) := by
  have hthree := three_le_roundsLeft c s.gMupgradeSendRunningFlag (s.retry + 1)
  simp only [Send.step, hpc, if_true]
  cases ok with
  | false =>
    refine (left_exit (c := c) rfl).mono ?_
    simp only [Send.rest, hpc]
    omega
  | true =>
    refine left_inside (hplaced.tried (by rw [hpc]; rfl)) (fun _ hi => (by cases hi))
      (fun _ hi => (by cases hi)) (fun _ => hplaced.packet (by rw [hpc]; rfl)) ?_
    simp only [Send.rest, hpc, Send.flashRead, if_true]
    omega

theorem roundHead_left (hpc : s.pc = .round) : Left c (s.rest c - 1) s.roundHead := by
  have hthree := three_le_roundsLeft c s.gMupgradeSendRunningFlag s.retry
  unfold Send.roundHead
  split
  · rename_i hgoes
    have hnext := roundsLeft_next (c := c) hgoes.1
    refine left_inside hgoes.1 (fun _ hi => (by cases hi)) (fun _ hi => (by cases hi))
      (fun h => (by cases h)) ?_
    simp only [Send.rest, hpc, hgoes.2.2]
    omega
  · refine (left_exit (c := c) rfl).mono ?_
    simp only [Send.rest, hpc]
    omega

theorem requestHead_left (hplaced : Placed c s) {i : ℕ} (hpc : s.pc = .request i) :
    Left c (s.rest c - 1) (s.requestHead i) := by
  have hthree := three_le_roundsLeft c s.gMupgradeSendRunningFlag (s.retry + 1)
  have hretry := hplaced.tried (by rw [hpc]; rfl)
  unfold Send.requestHead
  split
  · rename_i hmore
    refine left_inside hretry (fun _ hj => (by cases hj)) (fun j hj => ?_)
      (fun h => (by cases h)) ?_
    · cases hj
      exact hmore.1
    · simp only [Send.rest, hpc]
      omega
  · split
    · refine (left_exit (c := c) rfl).mono ?_
      simp only [Send.rest, hpc]
      omega
    · refine left_inside hretry (fun _ hj => (by cases hj)) (fun _ hj => (by cases hj))
        (fun h => (by cases h)) ?_
      simp only [Send.rest, hpc]
      omega

theorem packetHead_left (hplaced : Placed c s) (hpc : s.pc = .packet) :
    Left c (s.rest c - 1) (s.packetHead c) := by
  have hretry := hplaced.tried (by rw [hpc]; rfl)
  unfold Send.packetHead
  split
  · rename_i hmore
    have hleft := packetsLeft_running hmore.2.1
    split
    · refine left_inside hretry (fun _ hj => ?_) (fun _ hj => ?_) (fun h => ?_) ?_
      · cases hpc.symm.trans hj
      · cases hpc.symm.trans hj
      · have hpacket : s.pc.packing = true := h
        rw [hpc] at hpacket
        cases hpacket
      · simp only [Send.rest, hpc, hmore.2.2]
        omega
    · refine left_inside hretry (fun _ hj => (by cases hj)) (fun _ hj => (by cases hj))
        (fun _ => hmore.2.1) ?_
      simp only [Send.rest, hpc, hmore.2.2]
      omega
  · refine left_outside rfl ?_
    simp only [Send.rest, hpc]
    omega

theorem packetWrite_left (hplaced : Placed c s) (hpc : s.pc = .write) :
    Left c (s.rest c - 1) (s.packetWrite c) := by
  refine left_inside (hplaced.tried (by rw [hpc]; rfl)) (fun _ hj => (by cases hj))
    (fun _ hj => (by cases hj)) (fun h => (by cases h)) ?_
  simp only [Send.rest, hpc, Send.packetWrite]
  omega

theorem next_left (hplaced : Placed c s) (hpc : s.pc.goes = true) :
    Left c (s.rest c - 1) (s.step c .next) := by
  cases hs : s.pc with
  | round =>
    simp only [Send.step, hs]
    exact roundHead_left hs
  | request i =>
    simp only [Send.step, hs]
    exact requestHead_left hplaced hs
  | packet =>
    simp only [Send.step, hs]
    exact packetHead_left hplaced hs
  | write =>
    simp only [Send.step, hs]
    exact packetWrite_left hplaced hs
  | exit =>
    simp only [Send.step, hs]
    exact left_outside rfl (by simp only [Send.rest, hs, Send.atExit]; omega)
  | finished | response i | flash | drain | empty | returned =>
    rw [hs] at hpc
    cases hpc

/-- Another task's call of `mupgrade_firmware_stop` leaves less to do. -/
theorem stop_left (hplaced : Placed c s) : Left c (s.rest c) (s.step c .stop) := by
  refine ⟨⟨hplaced.tried, hplaced.request, hplaced.response, hplaced.packet⟩, ?_⟩
  have hround := three_le_roundsLeft c s.gMupgradeSendRunningFlag s.retry
  have hagain := three_le_roundsLeft c s.gMupgradeSendRunningFlag (s.retry + 1)
  have hoff : ∀ retry seq, c.roundsLeft false retry = 3 ∧ c.packetsLeft false seq = 0 :=
    fun _ _ => ⟨rfl, rfl⟩
  cases hpc : s.pc with
  | round | finished | request i | response i | packet | flash | drain | write | exit | empty |
    returned =>
    simp only [Send.step, Send.rest, hpc, hoff _ 0, hoff 0]
    omega

/-- What waits to be done is one of the moves. -/
theorem rest_pos (hpc : s.pc ≠ .returned) : 0 < s.rest c := by
  have hround := three_le_roundsLeft c s.gMupgradeSendRunningFlag s.retry
  cases hs : s.pc with
  | returned => exact absurd hs hpc
  | round | finished | request i | response i | packet | flash | drain | write | exit | empty =>
    simp only [Send.rest, hs]
    omega

end Steps

/-! ## With the queue -/

section Sessions
variable {c : FirmwareCall} {s : Session}

theorem moves_rest_pos {e : SessionEvent} (h : s.moves e = true) :
    0 < s.send.rest c.toSendCall := by
  apply rest_pos
  intro hpc
  cases e with
  | receive => simp [Session.moves, hpc, SendPc.receives] at h
  | flash ok => simp [Session.moves, hpc] at h
  | next => simp [Session.moves, hpc, SendPc.goes] at h
  | handle msg | stop => cases h

/-- The counters are in their ranges, and no more waits than the queue has room for. -/
structure SessionPlaced (c : FirmwareCall) (s : Session) : Prop where
  send : Placed c.toSendCall s.send
  queue : s.queue.length ≤ 3

/-- What is left, with what waits. -/
def Session.rest (c : FirmwareCall) (s : Session) : ℕ :=
  s.send.rest c.toSendCall + s.queue.length

theorem handle_left (h : SessionPlaced c s) (msg : FirmwareStatus) :
    SessionPlaced c (s.step c (.handle msg)) ∧
      (s.step c (.handle msg)).rest c = s.rest c + (s.accepts (.handle msg)).toNat := by
  simp only [Session.step, mupgradeRootHandle, Session.accepts]
  cases hrun : s.send.gMupgradeSendRunningFlag with
  | false => exact ⟨h, rfl⟩
  | true =>
    by_cases hroom : s.queue.length < 3
    · simp only [Bool.not_true, Bool.false_eq_true, if_false, hroom, if_true, decide_true,
        Bool.and_self, Bool.toNat_true]
      refine ⟨⟨h.send, ?_⟩, ?_⟩
      · rw [List.length_append, List.length_singleton]
        omega
      · simp only [Session.rest, List.length_append, List.length_singleton, Nat.add_assoc]
    · simp only [Bool.not_true, Bool.false_eq_true, if_false, hroom, decide_false, Bool.and_false,
        Bool.toNat_false]
      exact ⟨h, rfl⟩

/-- A move takes one away; a message makes up for its place in the queue. -/
theorem move_left {e : SessionEvent} (h : SessionPlaced c s) (hmove : s.moves e = true) :
    SessionPlaced c (s.step c e) ∧ (s.step c e).rest c + 1 ≤ s.rest c := by
  have hpos := moves_rest_pos (c := c) hmove
  cases e with
  | receive =>
    simp only [Session.moves] at hmove
    simp only [Session.step, hmove, if_true, Session.rest]
    cases hqueue : s.queue with
    | nil =>
      have hleft := timeout_left h.send hmove
      have hrest := hleft.rest
      refine ⟨⟨hleft.placed, Nat.zero_le _⟩, ?_⟩
      simp only [List.head?_nil, Option.map_none, List.tail_nil, List.length_nil]
      omega
    | cons q qs =>
      have hleft := message_left h.send q.toStatusMessage
      have hrest := hleft.rest
      have hlen := h.queue
      rw [hqueue, List.length_cons] at hlen
      refine ⟨⟨hleft.placed, ?_⟩, ?_⟩
      · simp only [List.tail_cons]
        omega
      · simp only [List.head?_cons, Option.map_some, List.tail_cons, List.length_cons]
        omega
  | flash ok =>
    have hleft := flash_left h.send (of_decide_eq_true hmove) ok
    have hrest := hleft.rest
    refine ⟨⟨hleft.placed, h.queue⟩, ?_⟩
    simp only [Session.step, Session.rest]
    omega
  | next =>
    have hleft := next_left h.send hmove
    have hrest := hleft.rest
    refine ⟨⟨hleft.placed, h.queue⟩, ?_⟩
    simp only [Session.step, Session.rest]
    omega
  | handle msg | stop => cases hmove

/-- An event that the function does not wait for. -/
theorem wait_left {e : SessionEvent} (h : SessionPlaced c s) (hmove : s.moves e = false)
    (hhandle : ∀ msg, e ≠ .handle msg) :
    SessionPlaced c (s.step c e) ∧ (s.step c e).rest c ≤ s.rest c := by
  cases e with
  | handle msg => exact absurd rfl (hhandle msg)
  | receive =>
    simp only [Session.moves] at hmove
    simp only [Session.step, hmove, Bool.false_eq_true, if_false]
    exact ⟨h, le_refl _⟩
  | flash ok =>
    have hpc : s.send.pc ≠ .flash := of_decide_eq_false hmove
    simp only [Session.step, Send.step, if_neg hpc]
    exact ⟨h, le_refl _⟩
  | next =>
    have hsame : s.send.step c.toSendCall .next = s.send := by
      cases hpc : s.send.pc with
      | finished | response i | flash | drain | empty | returned => simp only [Send.step, hpc]
      | round | request i | packet | write | exit => simp [Session.moves, hpc, SendPc.goes] at hmove
    simp only [Session.step, hsame]
    exact ⟨h, le_refl _⟩
  | stop =>
    have hleft := stop_left h.send
    exact ⟨⟨hleft.placed, h.queue⟩, Nat.add_le_add_right hleft.rest _⟩

/-- **A step** of the function with its queue. -/
theorem session_left (s : Session) (e : SessionEvent) (h : SessionPlaced c s) :
    SessionPlaced c (s.step c e) ∧
      (s.moves e).toNat + (s.step c e).rest c ≤ s.rest c + (s.accepts e).toNat := by
  cases hmove : s.moves e with
  | true =>
    obtain ⟨hplaced, hrest⟩ := move_left h hmove
    refine ⟨hplaced, ?_⟩
    rw [Bool.toNat_true]
    omega
  | false =>
    rw [Bool.toNat_false, Nat.zero_add]
    by_cases hhandle : ∃ msg, e = .handle msg
    · obtain ⟨msg, rfl⟩ := hhandle
      exact ⟨(handle_left h msg).1, (handle_left h msg).2.le⟩
    · obtain ⟨hplaced, hrest⟩ := wait_left h hmove fun msg hmsg => hhandle ⟨msg, hmsg⟩
      exact ⟨hplaced, hrest.trans (Nat.le_add_right _ _)⟩

theorem start_turn {c : SendCall} {progressArray packetData : ℕ → UInt8} {send : Send}
    (h : mupgradeFirmwareSend c progressArray packetData = some send) :
    (send.pc = .round ∨ send.pc = .exit) ∧ send.retry = 0 := by
  unfold mupgradeFirmwareSend at h
  split at h
  · cases h
    refine ⟨?_, rfl⟩
    dsimp only
    split
    · exact .inl rfl
    · exact .inr rfl
  · cases h

theorem start_placed {progressArray packetData : ℕ → UInt8} {send : Send}
    (h : mupgradeFirmwareSend c.toSendCall progressArray packetData = some send) :
    SessionPlaced c ⟨send, []⟩ ∧
      Session.rest c ⟨send, []⟩ ≤ mupgradeRetryCount * (4 * c.packetNum + 10) + 3 := by
  obtain ⟨hpc, hretry⟩ := start_turn h
  have hround : send.pc.inRound = false := by
    rcases hpc with hpc | hpc <;> rw [hpc] <;> rfl
  have hrest : send.rest c.toSendCall ≤ mupgradeRetryCount * (4 * c.packetNum + 10) + 3 := by
    rcases hpc with hpc | hpc
    · simp only [Send.rest, hpc, hretry, SendCall.roundsLeft, Nat.sub_zero]
      split <;> omega
    · simp only [Send.rest, hpc]
      omega
  have hleft := left_outside hround hrest
  exact ⟨⟨hleft.placed, Nat.zero_le _⟩, hleft.rest⟩

/-! ## Runs -/

/-- The moves of the function along a run. -/
def movesOf (c : FirmwareCall) (s : Session) (es : List SessionEvent) : ℕ :=
  total (Session.step c) (fun s e => (s.moves e).toNat) s es

/-- The messages that come into the queue along a run. -/
def messagesOf (c : FirmwareCall) (s : Session) (es : List SessionEvent) : ℕ :=
  total (Session.step c) (fun s e => (s.accepts e).toNat) s es

theorem run_left (h : SessionPlaced c s) (es : List SessionEvent) :
    SessionPlaced c (run (Session.step c) s es) ∧
      movesOf c s es + (run (Session.step c) s es).rest c ≤ s.rest c + messagesOf c s es := by
  refine ⟨run_invariant (fun s e hs => (session_left s e hs).1) h es, ?_⟩
  have hall : Along (Session.step c) (fun _ _ => True) s es := along_of_forall fun _ _ _ => trivial
  have hle := total_le (I := SessionPlaced c) (C := fun _ _ => True) (Session.rest c) 1
    (f := fun s e => (s.moves e).toNat) (g := fun s e => (s.accepts e).toNat)
    (fun s e hs _ => (session_left s e hs).1)
    (fun s e hs _ => by rw [Nat.one_mul]; exact (session_left s e hs).2) h hall
  rwa [Nat.one_mul] at hle

/-- The function has returned, or there is a move to make. -/
theorem returned_or_moves (s : Session) : s.send.pc = .returned ∨ ∃ e, s.moves e = true := by
  cases hpc : s.send.pc with
  | returned => exact .inl rfl
  | finished | response i | drain | empty =>
    exact .inr ⟨.receive, by simp [Session.moves, hpc, SendPc.receives]⟩
  | flash => exact .inr ⟨.flash true, by simp [Session.moves, hpc]⟩
  | round | request i | packet | write | exit =>
    exact .inr ⟨.next, by simp [Session.moves, hpc, SendPc.goes]⟩

/-- It has made at most `n` moves, and if it has not returned, fewer, and can make another. -/
structure ReturnsWithin (n moves : ℕ) (s : Session) : Prop where
  bound : moves ≤ n
  goes : s.send.pc ≠ .returned → moves < n ∧ ∃ e, s.moves e = true

theorem returnsWithin_of {n moves : ℕ} (h : moves + s.rest c ≤ n) : ReturnsWithin n moves s := by
  refine ⟨by omega, fun hpc => ⟨?_, (returned_or_moves s).resolve_left hpc⟩⟩
  have hpos := rest_pos (c := c.toSendCall) hpc
  unfold Session.rest at h
  omega

/-- **Return.** Whatever the devices send and whatever the calls return,
`mupgrade_firmware_send` returns: its moves are bounded by its ten rounds over the packets and the
messages it gets. -/
theorem firmware_send_returns (c : FirmwareCall) (progressArray packetData : ℕ → UInt8)
    (send : Send)
    (hstart : mupgradeFirmwareSend c.toSendCall progressArray packetData = some send)
    (es : List SessionEvent) :
    ReturnsWithin (mupgradeRetryCount * (4 * c.packetNum + 10) + 3 + messagesOf c ⟨send, []⟩ es)
      (movesOf c ⟨send, []⟩ es) (run (Session.step c) ⟨send, []⟩ es) := by
  obtain ⟨hplaced, hrest⟩ := start_placed hstart
  have hleft := (run_left hplaced es).2
  exact returnsWithin_of (c := c) (by omega)

/-! ## Behind `mupgrade_firmware_stop` -/

theorem send_stopped {c : SendCall} {s : Send} (e : SendEvent)
    (h : s.gMupgradeSendRunningFlag = false) : (s.step c e).gMupgradeSendRunningFlag = false := by
  cases e with
  | receive msg =>
    simp only [Send.step]
    split
    · exact (finishedReceive_turn c _ s).running.trans h
    · exact h
    · rename_i i q hpc
      have hsame := (responseReceive_turn c q s).running.trans h
      rcases responseNext_spec (s.responseReceive c q) i with hnext | hnext <;> rw [hnext]
      · exact hsame
      · exact hsame
    · exact h
    · exact (drainReceive_turn c _ s).running.trans h
    · exact h
    · exact h
    · exact h
    · exact h
  | flash ok =>
    simp only [Send.step]
    split
    · cases ok <;> exact h
    · exact h
  | next =>
    simp only [Send.step]
    split
    · unfold Send.roundHead
      split <;> exact h
    · unfold Send.requestHead
      split
      · exact h
      · split <;> exact h
    · unfold Send.packetHead
      split
      · split <;> exact h
      · exact h
    · exact h
    · rfl
    · exact h
  | stop => rfl

theorem session_stopped (e : SessionEvent) (h : s.send.gMupgradeSendRunningFlag = false) :
    (s.step c e).send.gMupgradeSendRunningFlag = false := by
  rcases session_send c s e with ⟨hsame, -⟩ | ⟨e', hstep, -⟩
  · rw [hsame, h]
  · rw [hstep]
    exact send_stopped e' h

/-- No message comes in. -/
theorem messagesOf_stopped (h : s.send.gMupgradeSendRunningFlag = false)
    (es : List SessionEvent) : messagesOf c s es = 0 := by
  induction es generalizing s with
  | nil => rfl
  | cons e es ih =>
    have hnone : s.accepts e = false := by
      cases e with
      | handle msg => simp [Session.accepts, h]
      | receive | flash ok | next | stop => rfl
    have hrest := ih (session_stopped (c := c) e h)
    rw [messagesOf] at hrest ⊢
    rw [total_cons, hnone, hrest]
    rfl

/-- The rest of a request, of one packet and the end. -/
theorem rest_stopped {c : SendCall} {s : Send} (h : s.gMupgradeSendRunningFlag = false) :
    s.rest c ≤ 12 := by
  have hoff : ∀ retry seq, c.roundsLeft false retry = 3 ∧ c.packetsLeft false seq = 0 :=
    fun _ _ => ⟨rfl, rfl⟩
  cases hpc : s.pc with
  | round | finished | request i | response i | packet | flash | drain | write | exit | empty |
    returned =>
    simp only [Send.rest, hpc, h, hoff _ 0, hoff 0]
    omega

/-- **Stop.** Wherever the function is when another task calls `mupgrade_firmware_stop`, and
whatever comes to the root, it returns within fifteen moves. -/
theorem firmware_stop_ends_send (c : FirmwareCall) (progressArray packetData : ℕ → UInt8)
    (send : Send)
    (hstart : mupgradeFirmwareSend c.toSendCall progressArray packetData = some send)
    (es es' : List SessionEvent) :
    let stopped := (run (Session.step c) ⟨send, []⟩ es).step c .stop
    ReturnsWithin 15 (movesOf c stopped es') (run (Session.step c) stopped es') := by
  have hplaced := (run_left (start_placed hstart).1 (es ++ [.stop])).1
  rw [run_append] at hplaced
  intro stopped
  have hoff : stopped.send.gMupgradeSendRunningFlag = false := rfl
  have hleft := (run_left (s := stopped) hplaced es').2
  have hrest := rest_stopped (c := c.toSendCall) hoff
  have hqueue : stopped.queue.length ≤ 3 := hplaced.queue
  rw [messagesOf_stopped hoff] at hleft
  refine returnsWithin_of (c := c) ?_
  have hfirst : stopped.rest c = stopped.send.rest c.toSendCall + stopped.queue.length := rfl
  omega

end Sessions

/-! ## A device that answers once -/

def paddedSession : Session := ⟨sendOfPadded, []⟩

/-- The root is ready for whatever comes next: a message, a step of its own, a flash call. -/
def turns (n : ℕ) : List SessionEvent := (List.replicate n [.receive, .next, .flash true]).flatten

def startedStatus : FirmwareStatus := ⟨⟨macOf 10, 0, 2048, 0, fun _ => 0⟩, paddedName⟩

/-- The device says that it has nothing yet, and no more. -/
def answersOnce (n : ℕ) : List SessionEvent :=
  [.next, .receive, .next, .handle startedStatus] ++ turns n

/-- Ten rounds with both packets, each of them behind ten requests that nobody answers. -/
theorem firmware_send_returns_silent :
    (run (Session.step paddedCall.toFirmwareCall) paddedSession (answersOnce 63)).send.pc =
        .returned ∧
      movesOf paddedCall.toFirmwareCall paddedSession (answersOnce 63) = 107 ∧
      ReturnsWithin (mupgradeRetryCount * (4 * paddedCall.packetNum + 10) + 3 +
          messagesOf paddedCall.toFirmwareCall paddedSession (answersOnce 63))
        (movesOf paddedCall.toFirmwareCall paddedSession (answersOnce 63))
        (run (Session.step paddedCall.toFirmwareCall) paddedSession (answersOnce 63)) :=
  ⟨by decide +kernel, by decide +kernel, firmware_send_returns paddedCall.toFirmwareCall
    (fun _ => 0) (fun _ => 0) sendOfPadded rfl (answersOnce 63)⟩

/-- The stop comes at the beginning of a round, with three messages in the queue. -/
def stoppedFull : List SessionEvent := answersOnce 7 ++ List.replicate 3 (.handle startedStatus)

/-- The fifteen moves are all made. -/
theorem firmware_stop_ends_send_full :
    let stopped := (run (Session.step paddedCall.toFirmwareCall) paddedSession stoppedFull).step
      paddedCall.toFirmwareCall .stop
    ((run (Session.step paddedCall.toFirmwareCall) stopped (turns 12)).send.pc = .returned ∧
        movesOf paddedCall.toFirmwareCall stopped (turns 12) = 15) ∧
      ReturnsWithin 15 (movesOf paddedCall.toFirmwareCall stopped (turns 12))
        (run (Session.step paddedCall.toFirmwareCall) stopped (turns 12)) :=
  ⟨by decide +kernel, firmware_stop_ends_send paddedCall.toFirmwareCall (fun _ => 0) (fun _ => 0)
    sendOfPadded rfl stoppedFull (turns 12)⟩

end EspMesh
