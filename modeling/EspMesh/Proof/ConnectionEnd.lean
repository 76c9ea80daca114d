import EspMesh.Proof.CommandQueue

/-! # The end of a connection

The dispatch block stands behind the branch of `read` that got data and is shared by the two
that got none. They leave the last frame in the buffer, so it is dispatched once more for every
turn at the end of the stream and for an error.
-/

namespace EspMesh
set_option autoImplicit false
set_option maxRecDepth 20000
open ByteMem Mem CopyQueue StepRuns

/-! ## What the other steps leave of the task -/

section Frame
variable (e : RootEnv) (s : Sys)

@[simp] theorem rootPing_tcp : (rootPing e s).tcp = s.tcp := by
  unfold rootPing
  split <;> rfl

@[simp] theorem rootConnect_tcp : (rootConnect e s).1.tcp = s.tcp := by
  unfold rootConnect
  split <;> rfl

@[simp] theorem rootServe_tcp : (rootServe e s).tcp = s.tcp := by
  have hoff : (rootOffline e s).tcp = s.tcp := by
    unfold rootOffline
    split <;> rfl
  refine Eq.trans ?_ hoff
  change (rootCommand e (rootOffline e s)).tcp = _
  unfold rootCommand
  split
  · rfl
  · dsimp only
    split <;> rfl

theorem rootTop_tcp : (rootTop e s).tcp = s.tcp := by
  have hcon := rootConnect_tcp e (rootPing e s)
  rw [rootPing_tcp] at hcon
  unfold rootTop
  split
  · rfl
  · dsimp only
    split
    · exact rootPing_tcp e s
    · split
      · next s' hs' => rwa [hs'] at hcon
      · next s' hs' =>
        rw [hs'] at hcon
        rw [rootServe_tcp, hcon]

theorem rootRead_tcp (pkt : Option MeshPacket) (c : CmdEnv) : (rootRead pkt c s).tcp = s.tcp := by
  cases pkt with
  | none => rfl
  | some pkt =>
    unfold rootRead
    dsimp only
    split
    · rfl
    · unfold rootBusiness
      dsimp only
      split <;> rfl

end Frame

/-! ## What a turn reads -/

/-- The outcome of the turn's `read`, if it gets that far. -/
def turnRead (e : TcpEnv) : Option ReadRet :=
  match e.connected && e.isRoot && !e.bDeviceOtaFlag, e.gSockfd, e.select with
  | true, some _, .ready true => some e.read
  | _, _, _ => none

/-- The counter starts over behind a whole command. -/
def TcpClient.wrapped (t : TcpClient) : TcpClient :=
  if t.alreadReadNumber ≥ tcpClientRecvLen then { t with alreadReadNumber := 0 } else t

/-- A turn that reads nothing does nothing but close or leave; data is stored; and at the end of
the stream and for an error the dispatch block works on the buffer as it is. -/
inductive Turned (e : TcpEnv) (t : TcpClient) (out : TcpOut) : Prop
  | idle (hread : turnRead e = none) (closed exited : Bool)
      (h : out = ⟨t, closed, exited, none, none⟩)
  | data (bytes : List UInt8) (some : bytes ≠ []) (hread : turnRead e = .some (.data bytes some))
      (h : out = tcpData e t.wrapped bytes)
  | ended (hread : turnRead e = .some .eof ∨ turnRead e = .some .error) (n : ℕ) (closed : Bool)
      (h : out = tcpReach e { t.wrapped with socketMaybeClose := n } closed)

theorem tcpReady_turned {e : TcpEnv} (hread : turnRead e = some e.read) (t : TcpClient) :
    Turned e t (tcpReady e t) := by
  unfold tcpReady
  extract_lets t'
  have hwrap : t' = t.wrapped := rfl
  rw [hwrap]
  split
  · next bytes some hret => exact .data bytes some (by rw [hread, hret]) rfl
  · next hret =>
    split
    · exact .ended (.inl (by rw [hread, hret])) _ _ rfl
    · exact .ended (.inl (by rw [hread, hret])) _ _ rfl
  · next hret => exact .ended (.inr (by rw [hread, hret])) _ _ rfl

theorem turn_turned (e : TcpEnv) (t : TcpClient) : Turned e t (tcpClientReadTurn e t) := by
  unfold tcpClientReadTurn
  split
  · next hoff => exact .idle (by unfold turnRead; split <;> simp_all) _ _ rfl
  · next hon =>
    split
    · next hflag => exact .idle (by simp [turnRead, hflag]) _ _ rfl
    · next hflag =>
      split
      · next hsock => exact .idle (by simp [turnRead, hsock]) _ _ rfl
      · next hsel => exact .idle (by simp [turnRead, hsel]) _ _ rfl
      · next hsel => exact .idle (by simp [turnRead, hsel]) _ _ rfl
      · next hsel => exact .idle (by simp [turnRead, hsel]) _ _ rfl
      · next fd hsock hsel =>
        refine tcpReady_turned ?_ t
        have hall : (e.connected && e.isRoot && !e.bDeviceOtaFlag) = true := by simp_all
        rw [turnRead, hall, hsock, hsel]

/-! ## Commands and frames -/

def readOf (s : Sys) : SysEvent → Option ReadRet
  | .tcpTurn e => if s.tcpRunning then turnRead (e.atRoot s) else none
  | _ => none

def bytesRead (s : Sys) (ev : SysEvent) : ℕ :=
  match readOf s ev with
  | some (.data bytes _) => bytes.length
  | _ => 0

/-- The commands the step puts on `ServerQueue`. -/
def commandsPut (s : Sys) : SysEvent → ℕ
  | .tcpTurn e =>
    (s.step (.tcpTurn e)).w.serverQueue.items.length - s.w.serverQueue.items.length
  | _ => 0

/-- The step's `read` finds the end of the stream, or fails. -/
def Ended (s : Sys) (ev : SysEvent) : Prop := readOf s ev = some .eof ∨ readOf s ev = some .error

def EndsQuietly (s : Sys) (ev : SysEvent) : Prop := Ended s ev → commandsPut s ev = 0

/-- Where a read brings nothing, the buffer does not begin with the address of the root or of a
registered node, or else the queue is full. -/
def NoReplay (s : Sys) (ev : SysEvent) : Prop :=
  Ended s ev → s.tcp.data.loadBytes 0 6 ∉ s.w.gSelfMac :: s.w.nodes.map NodeInfo.mac ∨
    s.w.serverQueue.capacity ≤ s.w.serverQueue.items.length

theorem reach_enqueued (e : TcpEnv) (t : TcpClient) (closed : Bool) :
    (tcpReach e t closed).enqueued.isSome = true ↔
      t.data.loadBytes 0 6 ∈ e.gSelfMac :: e.nodes.map NodeInfo.mac := by
  have hheader : field (t.data.loadBytes 0 101).val 0 6 = t.data.loadBytes 0 6 := by
    apply Subtype.ext
    rw [field_val _ _ _ (by rw [(t.data.loadBytes 0 101).2]; decide), List.drop_zero]
    exact Mem.load_take t.data 0 101 6 (by decide)
  have hvalid := tcpDispatch_valid e.gSelfMac e.nodes t.sqmsg (t.data.loadBytes 0 101)
  rw [hheader] at hvalid
  rw [List.mem_cons, eq_comm (a := t.data.loadBytes 0 6), ← hvalid]
  unfold tcpReach
  dsimp only
  split
  · next hd => simp [hd]
  · next hd => simp [hd]

theorem commandsPut_turn {s : Sys} (hrun : s.tcpRunning = true) (e : TcpEnv) :
    commandsPut s (.tcpTurn e) =
      if (tcpClientReadTurn (e.atRoot s) s.tcp).enqueued.isSome = true ∧
        s.w.serverQueue.items.length < s.w.serverQueue.capacity then 1 else 0 := by
  simp only [commandsPut, Sys.step, hrun, if_true, tcpTurn_serverQueue]
  cases (tcpClientReadTurn (e.atRoot s) s.tcp).enqueued with
  | none => simp
  | some msg =>
    by_cases hroom : s.w.serverQueue.items.length < s.w.serverQueue.capacity
    · simp [send_room _ _ hroom, hroom]
    · simp [send_full _ _ hroom, hroom]

theorem endsQuietly_iff (s : Sys) (ev : SysEvent) : EndsQuietly s ev ↔ NoReplay s ev := by
  refine imp_congr_right fun hended => ?_
  cases ev with
  | tcpTurn e =>
    cases hrun : s.tcpRunning with
    | false => simp [Ended, readOf, hrun] at hended
    | true =>
      simp only [Ended, readOf, hrun, if_true] at hended
      rcases turn_turned (e.atRoot s) s.tcp with ⟨hread, -, -, -⟩ | ⟨bytes, some, hread, -⟩ |
        ⟨-, n, closed, hout⟩
      · simp [hread] at hended
      · simp [hread] at hended
      · have hdata : s.tcp.wrapped.data = s.tcp.data := by
          unfold TcpClient.wrapped
          split <;> rfl
        have henq := reach_enqueued (e.atRoot s) { s.tcp.wrapped with socketMaybeClose := n } closed
        rw [← hout] at henq
        dsimp only at henq
        rw [hdata] at henq
        rw [commandsPut_turn hrun, ite_eq_right_iff, imp_iff_not Nat.one_ne_zero,
          not_and_or, henq, Nat.not_lt]
        exact Iff.rfl
  | rootStart _ | rootTop _ | rootRead _ _ | tcpStart _ | otaTask _ _ =>
    simp [Ended, readOf] at hended

theorem reach_alreadReadNumber (e : TcpEnv) (t : TcpClient) (closed : Bool) :
    (tcpReach e t closed).client.alreadReadNumber = t.alreadReadNumber := by
  unfold tcpReach
  dsimp only
  split <;> rfl

/-- Only with its last byte does a frame get to the dispatch block. -/
theorem data_counts (e : TcpEnv) (t : TcpClient) (bytes : List UInt8) :
    (tcpData e t bytes).enqueued = none ∧
        (tcpData e t bytes).client.alreadReadNumber = t.alreadReadNumber + bytes.length ∨
      t.alreadReadNumber + bytes.length = tcpClientRecvLen ∧
        (tcpData e t bytes).client.alreadReadNumber = 0 := by
  unfold tcpData
  dsimp only
  split
  · exact .inl ⟨rfl, rfl⟩
  · next hfull => exact .inr ⟨not_not.mp hfull, reach_alreadReadNumber _ _ _⟩

theorem TcpClient.wrapped_le (t : TcpClient) : t.wrapped.alreadReadNumber ≤ t.alreadReadNumber := by
  unfold wrapped
  split
  · exact Nat.zero_le _
  · exact le_refl _

/-- What is put on the queue has been read; the counter holds what has been read besides. -/
theorem step_put (s : Sys) (ev : SysEvent) (hev : NoReplay s ev) :
    tcpClientRecvLen * commandsPut s ev + (s.step ev).tcp.alreadReadNumber ≤
      s.tcp.alreadReadNumber + bytesRead s ev := by
  have hnone : (s.step ev).tcp.alreadReadNumber ≤ s.tcp.alreadReadNumber + bytesRead s ev →
      commandsPut s ev = 0 → tcpClientRecvLen * commandsPut s ev +
        (s.step ev).tcp.alreadReadNumber ≤ s.tcp.alreadReadNumber + bytesRead s ev :=
    fun hcount hput => by rwa [hput, Nat.mul_zero, Nat.zero_add]
  have hother : (s.step ev).tcp = s.tcp → (s.step ev).tcp.alreadReadNumber ≤
      s.tcp.alreadReadNumber + bytesRead s ev := fun htcp => by
    rw [htcp]
    exact Nat.le_add_right _ _
  cases ev with
  | tcpTurn e =>
    cases hrun : s.tcpRunning with
    | false =>
      have hsame : s.step (.tcpTurn e) = s := by simp [Sys.step, hrun]
      exact hnone (hother (by rw [hsame])) (by simp [commandsPut, hsame])
    | true =>
      have htcp : (s.step (.tcpTurn e)).tcp = (tcpClientReadTurn (e.atRoot s) s.tcp).client := by
        simp only [Sys.step, hrun, if_true]
        rfl
      have hput := commandsPut_turn hrun e
      have hwrap := s.tcp.wrapped_le
      rcases turn_turned (e.atRoot s) s.tcp with ⟨-, closed, exited, hout⟩ |
        ⟨bytes, some, hread, hout⟩ | ⟨hread, n, closed, hout⟩
      · rw [hout] at htcp hput
        exact hnone (hother htcp) hput
      · have hbytes : bytesRead s (.tcpTurn e) = bytes.length := by
          simp [bytesRead, readOf, hrun, hread]
        rw [hout] at htcp hput
        rcases data_counts (e.atRoot s) s.tcp.wrapped bytes with ⟨henq, hcount⟩ | ⟨hfull, hcount⟩
        · rw [henq] at hput
          exact hnone (by rw [htcp, hcount, hbytes]; omega) hput
        · have hone : commandsPut s (.tcpTurn e) ≤ 1 := by
            rw [hput]
            split <;> omega
          rw [htcp, hcount, hbytes]
          simp only [tcpClientRecvLen] at hfull ⊢
          omega
      · refine hnone ?_ ((endsQuietly_iff s _).mpr hev (by simpa [Ended, readOf, hrun]))
        rw [htcp, hout, reach_alreadReadNumber]
        dsimp only
        omega
  | tcpStart sqmsg =>
    refine hnone ?_ rfl
    simp only [Sys.step]
    split
    · exact Nat.le_add_right _ _
    · exact Nat.zero_le _
  | rootStart sqmsg => exact hnone (hother (by simp only [Sys.step]; split <;> rfl)) rfl
  | rootTop e =>
    exact hnone (hother (by simp only [Sys.step]; split; exacts [rootTop_tcp e s, rfl])) rfl
  | rootRead pkt e =>
    exact hnone (hother (by simp only [Sys.step]; split; exacts [rootRead_tcp s pkt e, rfl])) rfl
  | otaTask i e => exact hnone (hother rfl) rfl

/-! ## Every run of the root -/

/-- **The end of a connection.** In every run of the root, turns that read nothing put nothing
on the queue, and at no time have more commands been put there than whole frames been read,
exactly when each such turn finds no command in the buffer or no room in the queue. -/
theorem commands_follow_frames (mac : Mac) (ip : List UInt8) (bytes tcpBytes : ℕ → UInt8)
    (sqmsg : ServerqueueMsg) (es : List SysEvent) :
    let boot := Sys.boot mac ip bytes tcpBytes sqmsg
    (Along Sys.step EndsQuietly boot es ∧ ∀ fs, fs <+: es →
      total Sys.step commandsPut boot fs ≤ total Sys.step bytesRead boot fs / tcpClientRecvLen) ↔
      Along Sys.step NoReplay boot es := by
  intro boot
  have hquiet : Along Sys.step EndsQuietly boot es ↔ Along Sys.step NoReplay boot es :=
    along_congr (I := fun _ => True) (B := fun _ _ => True) (fun _ _ _ _ => trivial)
      (fun s ev _ _ => endsQuietly_iff s ev) trivial (along_of_forall fun _ _ _ => trivial)
  refine ⟨fun h => hquiet.mp h.1, fun h => ⟨hquiet.mpr h, ?_⟩⟩
  rintro fs ⟨gs, rfl⟩
  have hcount := total_le (I := fun _ => True) (fun s : Sys => s.tcp.alreadReadNumber)
    tcpClientRecvLen (fun _ _ _ _ => trivial) (fun s ev _ hev => step_put s ev hev) trivial
    (along_append.mp h).1
  have hboot : boot.tcp.alreadReadNumber = 0 := rfl
  rw [Nat.le_div_iff_mul_le (by simp), Nat.mul_comm]
  omega

def commandFrame : List UInt8 := List.replicate 6 2 ++ List.replicate 95 1

/-- A root that has connected reads a frame for itself, and then the end of the stream. -/
theorem frame_replayed_at_end :
    let es : List SysEvent := connected ++ [.tcpTurn (readTurn commandFrame (by decide)),
      .tcpTurn { readTurn commandFrame (by decide) with read := .eof }]
    ¬ (Along Sys.step EndsQuietly zeroBoot es ∧ ∀ fs, fs <+: es →
      total Sys.step commandsPut zeroBoot fs ≤
        total Sys.step bytesRead zeroBoot fs / tcpClientRecvLen) := by
  intro es h
  have hcount := h.2 es (List.prefix_refl es)
  revert hcount
  decide

end EspMesh
