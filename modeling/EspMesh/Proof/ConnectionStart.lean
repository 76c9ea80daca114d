import EspMesh.Proof.ConnectionEnd

/-! # The start of a connection

`alreadReadNumber` and the buffer belong to the task, not to the connection. Bytes of a frame
that a lost connection has cut off are counted and kept, and the first command of the next
connection is completed with them.
-/

namespace EspMesh
set_option autoImplicit false
set_option maxRecDepth 20000
open ByteMem Mem StepRuns

/-! ## The connections of a run -/

/-- The connection last opened: its number, what has been read from it, whether a command of it
has been dispatched; and for every byte of the buffer the number of the connection it came from,
where 0 is none. -/
structure Conn where
  number : ℕ
  received : List UInt8
  served : Bool
  origin : ℕ → ℕ

def Conn.none : Conn := ⟨0, [], false, fun _ => 0⟩

def Conn.opened (c : Conn) : Conn :=
  { c with number := c.number + 1, received := [], served := false }

/-- Bytes stored at `a`. -/
def Conn.read (c : Conn) (a : ℕ) (bytes : List UInt8) : Conn :=
  { c with
    received := c.received ++ bytes
    origin := fun i => if a ≤ i ∧ i < a + bytes.length then c.number else c.origin i }

def opens (s : Sys) (ev : SysEvent) : Bool :=
  s.w.gSockfd.isNone && (s.step ev).w.gSockfd.isSome

/-- The command the step's turn works on in the dispatch block. -/
def dispatchedOf (s : Sys) : SysEvent → Option (Bytes 101)
  | .tcpTurn e =>
    if s.tcpRunning then (tcpClientReadTurn (e.atRoot s) s.tcp).dispatched else .none
  | _ => .none

def noteRead (c : Conn) (s : Sys) (ev : SysEvent) : Conn :=
  match readOf s ev with
  | some (.data bytes _) => c.read (sizeofServerCmd * s.tcp.wrapped.alreadReadNumber) bytes
  | _ => c

def noteConn (c : Conn) (s : Sys) (ev : SysEvent) : Conn :=
  if opens s ev then c.opened
  else { noteRead c s ev with served := c.served || (dispatchedOf s ev).isSome }

/-- The first command dispatched from a connection is the first frame received on it, and no
command has a byte of an earlier connection. -/
def FramingRestarts (w : Sys × Conn) (ev : SysEvent) : Prop :=
  ∀ cmd ∈ dispatchedOf w.1 ev,
    (w.2.served = false →
      tcpClientRecvLen ≤ (noteConn w.2 w.1 ev).received.length ∧
        cmd.val = (noteConn w.2 w.1 ev).received.take tcpClientRecvLen) ∧
      ∀ a < tcpClientRecvLen, (noteConn w.2 w.1 ev).origin a = 0 ∨
        (noteConn w.2 w.1 ev).number ≤ (noteConn w.2 w.1 ev).origin a

/-- As long as no command of the connection has been dispatched, `read` neither fails nor finds
the end of the stream, and the bytes that complete a frame are the whole frame and the first
that the connection brings. -/
structure FirstFrameWhole (w : Sys × Conn) (ev : SysEvent) : Prop where
  open_ : w.2.served = false → ¬ Ended w.1 ev
  whole : w.2.served = false → ∀ bytes some, readOf w.1 ev = .some (.data bytes some) →
    w.1.tcp.wrapped.alreadReadNumber + bytes.length = tcpClientRecvLen →
      bytes.length = tcpClientRecvLen ∧ w.2.received = []

/-! ## One step -/

theorem reach_dispatches (e : TcpEnv) (t : TcpClient) (closed : Bool) :
    (tcpReach e t closed).dispatched = some (t.data.loadBytes 0 101) := by
  unfold tcpReach
  dsimp only
  split <;> rfl

theorem data_dispatches (e : TcpEnv) (t : TcpClient) (bytes : List UInt8) :
    (tcpData e t bytes).dispatched =
      if t.alreadReadNumber + bytes.length = tcpClientRecvLen then
        some ((t.data.store (sizeofServerCmd * t.alreadReadNumber) bytes).loadBytes 0 101)
      else none := by
  unfold tcpData
  dsimp only
  by_cases hfull : t.alreadReadNumber + bytes.length = tcpClientRecvLen
  · rw [if_neg (not_not.mpr hfull), if_pos hfull]
    exact reach_dispatches _ _ _
  · rw [if_pos hfull, if_neg hfull]
    rfl

/-- A dispatched command is the buffer of a turn that has completed a frame, or that has read
nothing. -/
theorem dispatched_cases {s : Sys} {ev : SysEvent} {cmd : Bytes 101}
    (h : dispatchedOf s ev = some cmd) : opens s ev = false ∧ (Ended s ev ∨
      ∃ bytes some, readOf s ev = .some (.data bytes some) ∧
        s.tcp.wrapped.alreadReadNumber + bytes.length = tcpClientRecvLen ∧
        cmd = (s.tcp.wrapped.data.store (sizeofServerCmd * s.tcp.wrapped.alreadReadNumber)
          bytes).loadBytes 0 101) := by
  cases ev with
  | tcpTurn e =>
    have hsock : s.w.gSockfd = none → (s.step (.tcpTurn e)).w.gSockfd = none := by
      intro hnone
      simp only [Sys.step]
      split
      · simp only [tcpTurn, hnone, ite_self]
      · exact hnone
    refine ⟨?_, ?_⟩
    · unfold opens
      cases hs : s.w.gSockfd with
      | none => simp [hsock hs]
      | some fd => simp
    · cases hrun : s.tcpRunning with
      | false => simp [dispatchedOf, hrun] at h
      | true =>
        have hreadOf : readOf s (.tcpTurn e) = turnRead (e.atRoot s) := by simp [readOf, hrun]
        simp only [dispatchedOf, hrun, if_true] at h
        rcases turn_turned (e.atRoot s) s.tcp with ⟨-, closed, exited, hout⟩ |
          ⟨bytes, some, hread, hout⟩ | ⟨hread, n, closed, hout⟩
        · rw [hout] at h
          cases h
        · rw [hout, data_dispatches] at h
          split at h
          · next hfull =>
            exact .inr ⟨bytes, some, hreadOf.trans hread, hfull, (Option.some.inj h).symm⟩
          · cases h
        · exact .inl (by rwa [Ended, hreadOf])
  | rootStart _ | rootTop _ | rootRead _ _ | tcpStart _ | otaTask _ _ => cases h

/-- A first frame that arrives whole is what is dispatched. -/
theorem first_dispatch {s : Sys} {c : Conn} {ev : SysEvent} {cmd : Bytes 101}
    (hev : FirstFrameWhole (s, c) ev) (hnew : c.served = false)
    (h : dispatchedOf s ev = some cmd) :
    noteRead c s ev = c.read 0 cmd.val ∧ c.received = [] := by
  obtain ⟨-, hended | ⟨bytes, some, hread, hfull, rfl⟩⟩ := dispatched_cases h
  · exact absurd hended (hev.open_ hnew)
  · obtain ⟨hlen, hnil⟩ := hev.whole hnew bytes some hread hfull
    have hzero : s.tcp.wrapped.alreadReadNumber = 0 := by omega
    refine ⟨?_, hnil⟩
    have hself := load_store_self s.tcp.wrapped.data 0 bytes
    rw [hlen] at hself
    simp only [noteRead, hread, hzero, Nat.mul_zero]
    exact congrArg (c.read 0) hself.symm

theorem noteRead_number (c : Conn) (s : Sys) (ev : SysEvent) :
    (noteRead c s ev).number = c.number := by
  unfold noteRead
  split <;> rfl

theorem noteRead_owned {c : Conn} {n : ℕ} (h : ∀ a < n, c.origin a = c.number) (s : Sys)
    (ev : SysEvent) : ∀ a < n, (noteRead c s ev).origin a = c.number := by
  intro a ha
  unfold noteRead
  split
  · simp only [Conn.read]
    split
    · rfl
    · exact h a ha
  · exact h a ha

/-- Once a command has been dispatched, the frame in the buffer is of the connection. -/
def FrameOwned (w : Sys × Conn) : Prop :=
  w.2.served = true → ∀ a < tcpClientRecvLen, w.2.origin a = w.2.number

/-- So is the frame that the step dispatches. -/
theorem dispatched_owned {s : Sys} {c : Conn} {ev : SysEvent} {cmd : Bytes 101}
    (h : FrameOwned (s, c)) (hev : FirstFrameWhole (s, c) ev)
    (hdis : dispatchedOf s ev = some cmd) :
    ∀ a < tcpClientRecvLen, (noteRead c s ev).origin a = c.number := by
  cases hserved : c.served with
  | true => exact noteRead_owned (h hserved) s ev
  | false =>
    intro a ha
    rw [(first_dispatch hev hserved hdis).1]
    exact if_pos ⟨Nat.zero_le a, by rwa [Nat.zero_add, cmd.2]⟩

theorem step_owned (w : Sys × Conn) (ev : SysEvent) (h : FrameOwned w)
    (hev : FirstFrameWhole w ev) : FrameOwned (observe Sys.step noteConn w ev) := by
  obtain ⟨s, c⟩ := w
  unfold FrameOwned
  dsimp only [observe, noteConn]
  split
  · exact fun hserved => nomatch hserved
  · intro hserved
    dsimp only at hserved ⊢
    rw [noteRead_number]
    cases hdis : dispatchedOf s ev with
    | some cmd => exact dispatched_owned h hev hdis
    | none =>
      rw [hdis, Option.isSome_none, Bool.or_false] at hserved
      exact noteRead_owned (h hserved) s ev

theorem owned_restarts (w : Sys × Conn) (ev : SysEvent) (h : FrameOwned w)
    (hev : FirstFrameWhole w ev) : FramingRestarts w ev := by
  obtain ⟨s, c⟩ := w
  intro cmd hdis
  dsimp only at hdis ⊢
  have hnote : noteConn c s ev = { noteRead c s ev with
      served := c.served || (dispatchedOf s ev).isSome } := by
    rw [noteConn, (dispatched_cases hdis).1]
    rfl
  rw [hnote]
  refine ⟨fun hnew => ?_, fun a ha => .inr ?_⟩
  · obtain ⟨hread, hnil⟩ := first_dispatch hev hnew hdis
    have hall : cmd.val.take tcpClientRecvLen = cmd.val := List.take_of_length_le (by simp [cmd.2])
    simp only [hread, Conn.read, hnil, List.nil_append, hall]
    exact ⟨cmd.2.ge, trivial⟩
  · dsimp only
    rw [noteRead_number, dispatched_owned h hev hdis a ha]

/-! ## Every run of the root -/

/-- **Framing restarts.** In every run of the root in which each connection that has a command
dispatched brings its first frame whole, the first command of each connection is that frame,
and no command has a byte of an earlier connection. -/
theorem framing_restarts (mac : Mac) (ip : List UInt8) (bytes tcpBytes : ℕ → UInt8)
    (sqmsg : ServerqueueMsg) (es : List SysEvent)
    (h : Along (observe Sys.step noteConn) FirstFrameWhole
      (Sys.boot mac ip bytes tcpBytes sqmsg, .none) es) :
    Along (observe Sys.step noteConn) FramingRestarts
      (Sys.boot mac ip bytes tcpBytes sqmsg, .none) es :=
  along_of_invariant_along step_owned owned_restarts (fun hserved => nomatch hserved) h

/-! ## A connection lost in mid-frame -/

theorem firstFrameWhole_frame {w : Sys × Conn} {fd : ℕ} (hrun : w.1.tcpRunning = true)
    (hota : w.1.w.ota.bDeviceOtaFlag = false) (hsock : w.1.w.gSockfd = some fd)
    (hnil : w.2.received = []) {bytes : List UInt8} (some : bytes ≠ [])
    (hlen : bytes.length = tcpClientRecvLen) :
    FirstFrameWhole w (.tcpTurn (readTurn bytes some)) := by
  have hread : readOf w.1 (.tcpTurn (readTurn bytes some)) = .some (.data bytes some) := by
    simp [readOf, hrun, turnRead, TcpEnv.atRoot, readTurn, hota, hsock]
  refine ⟨fun _ => by simp [Ended, hread], fun _ b hb h _ => ?_⟩
  rw [hread, Option.some_inj] at h
  cases h
  exact ⟨hlen, hnil⟩

theorem firstFrameWhole_unread {w : Sys × Conn} {ev : SysEvent} (hread : readOf w.1 ev = none) :
    FirstFrameWhole w ev :=
  ⟨fun _ => by simp [Ended, hread], fun _ bytes some h => by simp [hread] at h⟩

theorem firstFrameWhole_served {w : Sys × Conn} {ev : SysEvent} (hserved : w.2.served = true) :
    FirstFrameWhole w ev :=
  ⟨fun hnew => Bool.noConfusion (hserved.symm.trans hnew),
    fun hnew => Bool.noConfusion (hserved.symm.trans hnew)⟩

/-- A frame comes whole and another one in two parts, `select` fails, the root connects again, and
a frame comes whole. -/
theorem framing_restarts_again :
    Along (observe Sys.step noteConn) FramingRestarts (zeroBoot, .none)
      (connected ++ [.tcpTurn (readTurn (List.replicate 101 9) (by decide)),
        .tcpTurn (readTurn (List.replicate 50 7) (by decide)),
        .tcpTurn (readTurn (List.replicate 51 7) (by decide)),
        .tcpTurn { readTurn commandFrame (by decide) with select := .error },
        .rootRead none idleCmd, .rootTop (idleEnv 2000),
        .tcpTurn (readTurn commandFrame (by decide))]) := by
  exact framing_restarts _ _ _ _ _ _
    ⟨firstFrameWhole_unread rfl, firstFrameWhole_unread rfl, firstFrameWhole_unread rfl,
      firstFrameWhole_frame rfl rfl rfl rfl _ (by decide), firstFrameWhole_served rfl,
      firstFrameWhole_served rfl, firstFrameWhole_served rfl, firstFrameWhole_unread rfl,
      firstFrameWhole_unread rfl, firstFrameWhole_frame rfl rfl rfl rfl _ (by decide), trivial⟩

/-- Fifty bytes are read, `select` fails, the root connects again, and the 51 bytes that begin
the next frame are taken for the end of the first. -/
theorem cut_off_frame_completed :
    ¬ Along (observe Sys.step noteConn) FramingRestarts (zeroBoot, .none)
      (connected ++ [.tcpTurn (readTurn (List.replicate 50 7) (by decide)),
        .tcpTurn { readTurn commandFrame (by decide) with select := .error },
        .rootRead none idleCmd, .rootTop (idleEnv 2000),
        .tcpTurn (readTurn (List.replicate 51 8) (by decide))]) := by
  intro h
  obtain ⟨-, -, -, -, -, -, -, hlast, -⟩ := h
  obtain ⟨-, horigin⟩ := hlast _ rfl
  have hfirst := horigin 0 (by decide)
  revert hfirst
  decide

end EspMesh
