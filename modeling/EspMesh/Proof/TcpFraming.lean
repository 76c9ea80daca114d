import EspMesh.Library.Framing
import EspMesh.Model.TcpClientRead

/-! # Framing of the server's commands

`pSCmd + alreadReadNumber` advances in units of a whole command, so only the first chunk of a
command is stored where the dispatch block looks for it; every later chunk lands 101 bytes
further for each byte already read. `CutHarmless` is exactly what saves a stream from this: the
later chunks stay inside the buffer, and the bytes they should have delivered are the ones the
preceding frame left in their place.

The count is not reset when a connection is lost. Bytes counted on the old one shift the commands
of the new one against its frames; `ReadsAs` says when they are the frames all the same.
-/

namespace EspMesh
set_option autoImplicit false
open ByteMem Framing

def TcpEnv.chunk (e : TcpEnv) : Option (List UInt8) :=
  match e.bDeviceOtaFlag, e.select, e.read with
  | false, .ready true, .data bytes _ => some bytes
  | _, _, _ => none

/-- The turn happens on an open connection: the task keeps running, the socket is open, neither
`select` nor `read` fails, and the server has not closed. -/
def TcpEnv.OnConnection (e : TcpEnv) : Prop :=
  e.connected = true ∧ e.isRoot = true ∧ e.gSockfd ≠ none ∧ e.select ≠ .error ∧
    (e.select = .ready true → ∃ bytes some, e.read = .data bytes some)

/-- The chunk a command begins with, once `c` has arrived behind `n` bytes of it. -/
def firstChunk (n : ℕ) (first c : List UInt8) : List UInt8 := if n = 0 then c else first

/-- `old` is the preceding frame (or the buffer's content), `first` the first chunk of the
current frame, `cur` what has been received of it. -/
def CutHarmless : List UInt8 → List UInt8 → List UInt8 → List (List UInt8) → Prop
  | _, _, _, [] => True
  | old, first, cur, c :: cs =>
    let first := firstChunk cur.length first c
    tcpClientRecvLen * cur.length + c.length ≤ rootPacketLen ∧
      if cur.length + c.length = tcpClientRecvLen then
        (cur ++ c).drop first.length = old.drop first.length ∧ CutHarmless (cur ++ c) [] [] cs
      else CutHarmless old first (cur ++ c) cs

/-- The chunks read as the frames `fs`: with `n` bytes of the current command counted, each
command that is completed begins with its first chunk and goes on as the frame before. -/
def ReadsAs : List (List UInt8) → List UInt8 → ℕ → List UInt8 → List (List UInt8) → Prop
  | fs, _, _, _, [] => fs = []
  | fs, old, n, first, c :: cs =>
    let first := firstChunk n first c
    tcpClientRecvLen * n + c.length ≤ rootPacketLen ∧
      if n + c.length = tcpClientRecvLen then
        ∃ rest, fs = (first ++ old.drop first.length) :: rest ∧
          ReadsAs rest (first ++ old.drop first.length) 0 [] cs
      else ReadsAs fs old (n + c.length) first cs

theorem firstChunk_prefix {first cur : List UInt8} (h : first <+: cur) (c : List UInt8) :
    firstChunk cur.length first c <+: cur ++ c := by
  unfold firstChunk
  split
  · next hnil => simp [List.eq_nil_of_length_eq_zero hnil]
  · exact h.trans (List.prefix_append cur c)

/-- With nothing counted at the start, the chunks read as their own frames exactly when the
cutting is harmless. -/
theorem readsAs_collect (old first cur : List UInt8) (cs : List (List UInt8))
    (hfirst : first <+: cur) :
    ReadsAs (collect tcpClientRecvLen cur cs) old cur.length first cs ↔
      CutHarmless old first cur cs := by
  induction cs generalizing old first cur with
  | nil => simp [ReadsAs, CutHarmless, collect]
  | cons c cs ih =>
    have hpre := firstChunk_prefix hfirst c
    rw [ReadsAs, CutHarmless, collect, List.length_append]
    refine and_congr_right fun _ => ?_
    by_cases hfull : cur.length + c.length = tcpClientRecvLen
    · -- The frame is its first chunk and the rest; only the rest is at stake.
      have hframe : cur ++ c = firstChunk cur.length first c ++
            old.drop (firstChunk cur.length first c).length ↔
          (cur ++ c).drop (firstChunk cur.length first c).length =
            old.drop (firstChunk cur.length first c).length := by
        obtain ⟨rest, hrest⟩ := hpre
        rw [← hrest, List.drop_left, List.append_cancel_left_eq]
      rw [if_pos hfull, if_pos hfull, if_pos hfull, ← hframe]
      constructor
      · rintro ⟨rest, hcons, hreads⟩
        obtain ⟨hcur, rfl⟩ := List.cons.inj hcons
        exact ⟨hcur, (ih (cur ++ c) [] [] List.nil_prefix).mp (hcur ▸ hreads)⟩
      · rintro ⟨hcur, hharmless⟩
        refine ⟨_, by rw [← hcur], ?_⟩
        rw [← hcur]
        exact (ih (cur ++ c) [] [] List.nil_prefix).mpr hharmless
    · rw [if_neg hfull, if_neg hfull, if_neg hfull, ← List.length_append]
      exact ih old _ (cur ++ c) hpre

/-! ## One turn -/

/-- What the buffer and the counter say in the middle of a command. -/
structure Midframe (t : TcpClient) (old : List UInt8) (n : ℕ) (first : List UInt8) : Prop where
  count : t.alreadReadNumber = n
  short : n < 101
  began : first.length ≤ n
  image : t.data.load 0 101 = first ++ old.drop first.length

theorem turn_chunk {e : TcpEnv} (he : e.OnConnection) {c : List UInt8} (hc : e.chunk = some c)
    {t : TcpClient} (ht : t.alreadReadNumber < 101) : tcpClientReadTurn e t = tcpData e t c := by
  obtain ⟨hconn, hroot, hsock, _, _⟩ := he
  obtain ⟨fd, hfd⟩ := Option.ne_none_iff_exists'.mp hsock
  unfold TcpEnv.chunk at hc
  split at hc
  · next hota hsel hread =>
    cases hc
    have hwrap : ¬ t.alreadReadNumber ≥ tcpClientRecvLen := by simp; omega
    simp only [tcpClientReadTurn, hconn, hroot, hota, hsel, hfd, tcpReady, hread, if_neg hwrap]
    rfl
  · cases hc

theorem turn_idle {e : TcpEnv} (he : e.OnConnection) (hc : e.chunk = none) (t : TcpClient) :
    tcpClientReadTurn e t = .idle t := by
  obtain ⟨hconn, hroot, hsock, hsel, hread⟩ := he
  obtain ⟨fd, hfd⟩ := Option.ne_none_iff_exists'.mp hsock
  cases hota : e.bDeviceOtaFlag with
  | true => simp [tcpClientReadTurn, hconn, hroot, hota]
  | false =>
    cases hs : e.select with
    | error => exact absurd hs hsel
    | timeout => simp [tcpClientReadTurn, hconn, hroot, hota, hfd, hs]
    | ready isSet =>
      cases isSet with
      | false => simp [tcpClientReadTurn, hconn, hroot, hota, hfd, hs]
      | true =>
        obtain ⟨bytes, hsome, hr⟩ := hread hs
        simp [TcpEnv.chunk, hota, hs, hr] at hc

theorem reach_spec (e : TcpEnv) (t : TcpClient) (closed : Bool) :
    (tcpReach e t closed).dispatched.map (·.val) = some (t.data.load 0 101) ∧
      (tcpReach e t closed).client.data = t.data ∧
      (tcpReach e t closed).client.alreadReadNumber = t.alreadReadNumber := by
  unfold tcpReach
  dsimp only
  split <;> exact ⟨rfl, rfl, rfl⟩

section Chunk
variable {t : TcpClient} {old first c : List UInt8} {n : ℕ}

theorem Midframe.store (h : Midframe t old n first) (hc : n + c.length ≤ 101) :
    (t.data.store (101 * n) c).load 0 101 =
      firstChunk n first c ++ old.drop (firstChunk n first c).length := by
  unfold firstChunk
  split
  · next hn =>
    subst hn
    have himg : t.data.load 0 101 = old := by
      rw [h.image, List.eq_nil_of_length_eq_zero (Nat.le_zero.mp h.began)]
      rfl
    have hlen : c.length ≤ 101 := by simpa using hc
    have hsplit := Mem.load_append (t.data.store 0 c) 0 c.length (101 - c.length)
    rw [Nat.add_sub_cancel' hlen, Mem.load_store_self,
      Mem.load_store_off t.data 0 (0 + c.length) (101 - c.length) c (by omega)] at hsplit
    rw [Nat.mul_zero, hsplit, ← himg, Mem.load_drop _ _ _ _ hlen]
  · rw [Mem.load_store_off _ _ _ _ _ (by omega), h.image]

theorem Midframe.partial_turn (h : Midframe t old n first) (e : TcpEnv)
    (hc : n + c.length < 101) :
    (tcpData e t c).dispatched = none ∧
      (tcpData e t c).client.data = t.data.store (101 * n) c ∧
      Midframe (tcpData e t c).client old (n + c.length) (firstChunk n first c) := by
  have hd : tcpData e t c = .idle { t with
      data := t.data.store (101 * n) c
      alreadReadNumber := n + c.length
      socketMaybeClose := 0 } := by
    unfold tcpData
    rw [h.count, if_pos (by simp; omega)]
    rfl
  have hfirst : (firstChunk n first c).length ≤ n + c.length := by
    have := h.began
    rw [firstChunk]
    split <;> omega
  rw [hd]
  exact ⟨rfl, rfl, rfl, hc, hfirst, h.store hc.le⟩

/-- A chunk that completes the command: the dispatch block sees its first chunk, then what was
in the buffer before. -/
theorem Midframe.full_turn (h : Midframe t old n first) (e : TcpEnv) (hc : n + c.length = 101) :
    (tcpData e t c).dispatched.map (·.val) =
        some (firstChunk n first c ++ old.drop (firstChunk n first c).length) ∧
      (tcpData e t c).client.data = t.data.store (101 * n) c ∧
      Midframe (tcpData e t c).client
        (firstChunk n first c ++ old.drop (firstChunk n first c).length) 0 [] := by
  have hd : tcpData e t c = tcpReach e { t with
      data := t.data.store (101 * n) c
      alreadReadNumber := 0
      socketMaybeClose := 0 } false := by
    unfold tcpData
    rw [h.count, if_neg (by simpa using hc)]
    rfl
  obtain ⟨hdis, hdata, hcount⟩ := reach_spec e { t with
      data := t.data.store (101 * n) c
      alreadReadNumber := 0
      socketMaybeClose := 0 } false
  rw [hd]
  refine ⟨hdis.trans (congrArg some (h.store hc.le)), hdata, hcount, by omega, le_rfl, ?_⟩
  rw [hdata]
  exact h.store hc.le

end Chunk

/-! ## All turns of a connection -/

theorem framing_midframe (es : List TcpEnv) (hes : ∀ e ∈ es, e.OnConnection) (t : TcpClient)
    (fs : List (List UInt8)) (old first : List UInt8) (n : ℕ) (h : Midframe t old n first)
    (hcut : Cut 101 n (es.filterMap TcpEnv.chunk)) :
    (tcpCommands t es = fs ∧ (tcpTurns t es).data.Inside 0 rootPacketLen) ↔
      t.data.Inside 0 rootPacketLen ∧ ReadsAs fs old n first (es.filterMap TcpEnv.chunk) := by
  induction es generalizing t fs old first n with
  | nil => simp [tcpCommands, tcpTurns, ReadsAs, and_comm, eq_comm]
  | cons e es ih =>
    have he := hes e (List.mem_cons_self ..)
    have hes' := fun e' h' => hes e' (List.mem_cons_of_mem e h')
    rw [tcpCommands,
      show tcpTurns t (e :: es) = tcpTurns (tcpClientReadTurn e t).client es from rfl]
    cases hc : e.chunk with
    | none =>
      rw [List.filterMap_cons_none hc] at hcut ⊢
      rw [turn_idle he hc]
      exact ih hes' t fs old first n h hcut
    | some c =>
      rw [List.filterMap_cons_some hc] at hcut ⊢
      rw [turn_chunk he hc (by rw [h.count]; exact h.short), ReadsAs]
      obtain ⟨_, hle, hrest⟩ := hcut
      have hins : (t.data.store (101 * n) c).Inside 0 rootPacketLen ↔
          t.data.Inside 0 rootPacketLen ∧ 101 * n + c.length ≤ rootPacketLen := by
        rw [Mem.inside_store, and_comm]
        simp only [Nat.zero_le, true_and]
      by_cases hfull : n + c.length = 101
      · -- The command is complete, and the next frame has to be what it is.
        obtain ⟨hdis, hdata, hmid⟩ := h.full_turn e hfull
        rw [hfull] at hrest
        rw [if_pos (show _ = tcpClientRecvLen from hfull), hdis, Option.toList_some,
          List.singleton_append]
        constructor
        · rintro ⟨rfl, hin⟩
          obtain ⟨hin', hreads⟩ := (ih hes' _ _ _ _ _ hmid hrest).mp ⟨rfl, hin⟩
          rw [hdata, hins] at hin'
          exact ⟨hin'.1, hin'.2, _, rfl, hreads⟩
        · rintro ⟨hin, hfit, rest, rfl, hreads⟩
          obtain ⟨hcommands, hin'⟩ := (ih hes' _ rest _ _ _ hmid hrest).mpr
            ⟨by rw [hdata, hins]; exact ⟨hin, hfit⟩, hreads⟩
          exact ⟨congrArg _ hcommands, hin'⟩
      · have hlt : n + c.length < 101 := by omega
        obtain ⟨hdis, hdata, hmid⟩ := h.partial_turn e hlt
        rw [Nat.mod_eq_of_lt hlt] at hrest
        rw [hdis, if_neg (show ¬ _ = tcpClientRecvLen from hfull), Option.map_none,
          Option.toList_none, List.nil_append, ih hes' _ fs _ _ _ hmid hrest, hdata, hins,
          and_assoc]
        exact Iff.rfl

/-! ## A connection from its first byte -/

/-- A `read` returns no more than was asked for. -/
def ReadFits (t : TcpClient) (e : TcpEnv) : Prop :=
  ∀ bytes some, e.read = .data bytes some → t.alreadReadNumber + bytes.length ≤ tcpClientRecvLen

/-- The states of the task, whatever happened to its earlier connections. -/
inductive TcpClient.Reachable : TcpClient → Prop
  | start (bytes : ℕ → UInt8) (sqmsg : ServerqueueMsg) : Reachable (.start bytes sqmsg)
  | turn {t : TcpClient} (h : Reachable t) (e : TcpEnv) (hread : ReadFits t e) :
      Reachable (tcpClientReadTurn e t).client

theorem turn_count (t : TcpClient) (e : TcpEnv) (h : t.alreadReadNumber < 101)
    (hread : ReadFits t e) : (tcpClientReadTurn e t).client.alreadReadNumber < 101 := by
  have hwrap : ¬ t.alreadReadNumber ≥ tcpClientRecvLen := by simp; omega
  unfold tcpClientReadTurn
  split
  · exact h
  · split
    · exact h
    · split
      · exact h
      · exact h
      · exact h
      · exact h
      · simp only [tcpReady, if_neg hwrap]
        split
        · next bytes hsome hdata =>
          have hfits := hread bytes hsome hdata
          unfold tcpData
          dsimp only
          split
          · next hpart => exact lt_of_le_of_ne hfits hpart
          · rw [(reach_spec _ _ _).2.2]
            exact Nat.succ_pos 100
        · split <;> rw [(reach_spec _ _ _).2.2] <;> exact h
        · rw [(reach_spec _ _ _).2.2]
          exact h

theorem TcpClient.Reachable.count {t : TcpClient} (h : t.Reachable) :
    t.alreadReadNumber < 101 := by
  induction h with
  | start bytes sqmsg => exact Nat.succ_pos 100
  | turn _ e hread ih => exact turn_count _ e ih hread

/-- The task as a connection opens; the record of what is stored starts anew. -/
def TcpClient.opened (t : TcpClient) : TcpClient := { t with data := ⟨t.data.byte, []⟩ }

/-- **Framing.** On a connection whose reads cut the stream admissibly, the commands that reach
the dispatch block are the stream's frames, and no `read` leaves the buffer, exactly when the
cutting is harmless; with bytes of an earlier connection counted, when the chunks read as the
frames all the same. -/
theorem tcp_framing (t : TcpClient) (ht : t.Reachable) (es : List TcpEnv)
    (hes : ∀ e ∈ es, e.OnConnection)
    (hcut : Cut tcpClientRecvLen t.alreadReadNumber (es.filterMap TcpEnv.chunk)) :
    (tcpCommands t.opened es = frames tcpClientRecvLen (es.filterMap TcpEnv.chunk).flatten ∧
        (tcpTurns t.opened es).data.Inside 0 rootPacketLen) ↔
      if t.alreadReadNumber = 0 then
        CutHarmless (t.data.load 0 tcpClientRecvLen) [] [] (es.filterMap TcpEnv.chunk)
      else
        ReadsAs (frames tcpClientRecvLen (es.filterMap TcpEnv.chunk).flatten)
          (t.data.load 0 tcpClientRecvLen) t.alreadReadNumber [] (es.filterMap TcpEnv.chunk) := by
  have hmid : Midframe t.opened (t.data.load 0 tcpClientRecvLen) t.alreadReadNumber [] :=
    ⟨rfl, ht.count, Nat.zero_le _, rfl⟩
  have hin : t.opened.data.Inside 0 rootPacketLen := fun s hs => absurd hs List.not_mem_nil
  rw [framing_midframe es hes _ _ _ _ _ hmid hcut, and_iff_right hin]
  split
  · next hzero =>
    rw [hzero] at hcut ⊢
    have hframes := collect_eq_frames tcpClientRecvLen (by simp) [] _ (by simp) hcut
    rw [List.nil_append] at hframes
    rw [← hframes]
    exact readsAs_collect _ [] [] _ (List.prefix_refl [])
  · exact Iff.rfl

theorem readTurn_onConnection (bytes : List UInt8) (some : bytes ≠ []) :
    (readTurn bytes some).OnConnection :=
  ⟨rfl, rfl, by simp [readTurn], by simp [readTurn], fun _ => ⟨bytes, some, rfl⟩⟩

/-- Turns that each read one chunk of `byte`, this often. -/
def readRuns (runs : List (ℕ × UInt8)) : List TcpEnv :=
  runs.map fun r => readTurn (List.replicate (r.1 + 1) r.2) (List.cons_ne_nil _ _)

theorem readRuns_onConnection (runs : List (ℕ × UInt8)) : ∀ e ∈ readRuns runs, e.OnConnection :=
  List.forall_mem_map.mpr fun _ _ => readTurn_onConnection _ _

/-- Three frames, the second one cut where the rest of it is what the first one left. -/
theorem tcp_framing_cut :
    let t := TcpClient.start (fun _ => 0) ⟨false, mwifiAddrBroadcast, Bytes.const 101 0⟩
    let es := readRuns [(100, 7), (9, 5), (90, 7), (100, 9)]
    frames tcpClientRecvLen (es.filterMap TcpEnv.chunk).flatten =
        [List.replicate 101 7, List.replicate 10 5 ++ List.replicate 91 7, List.replicate 101 9] ∧
      tcpCommands t.opened es =
        frames tcpClientRecvLen (es.filterMap TcpEnv.chunk).flatten ∧
      (tcpTurns t.opened es).data.Inside 0 rootPacketLen := by
  intro t es
  refine ⟨by decide +kernel, ?_⟩
  refine (tcp_framing t (.start _ _) es (readRuns_onConnection _) ?_).mpr ?_
  · simp [es, t, readRuns, Cut, TcpEnv.chunk, readTurn, TcpClient.start]
  · rw [if_pos (by rfl)]
    simp [es, readRuns, CutHarmless, firstChunk, TcpEnv.chunk, readTurn]

/-- A frame of sevens cut after its fifteenth byte: the rest is stored behind the buffer's end,
and the command keeps the zeros that were there. -/
theorem split_frame_misread :
    let es := [readTurn (List.replicate 15 7) (by simp), readTurn (List.replicate 86 7) (by simp)]
    let start := (TcpClient.start (fun _ => 0)
      ⟨false, mwifiAddrBroadcast, Bytes.const 101 0⟩).opened
    (∀ e ∈ es, e.OnConnection) ∧ Cut tcpClientRecvLen 0 (es.filterMap TcpEnv.chunk) ∧
      tcpCommands start es = [List.replicate 15 7 ++ List.replicate 86 0] ∧
      frames tcpClientRecvLen (es.filterMap TcpEnv.chunk).flatten = [List.replicate 101 7] ∧
      ¬ (tcpTurns start es).data.Inside 0 rootPacketLen := by
  intro es start
  refine ⟨?_, by simp [es, Cut, TcpEnv.chunk, readTurn], by decide, by decide, ?_⟩
  · intro e he
    rcases List.mem_cons.mp he with rfl | he
    · exact readTurn_onConnection _ _
    · rw [List.mem_singleton.mp he]
      exact readTurn_onConnection _ _
  · intro h
    have := h (1515, 86) (by decide)
    revert this
    decide

end EspMesh
