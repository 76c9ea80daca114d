import EspMesh.Proof.RootStep
import Mathlib.Data.List.Nodup

/-! # The pause during an upgrade

`root_do_ota` raises `bDeviceOtaFlag` and allocates the address buffer; both are undone only by
the statements of `ota_task` behind `vTaskDelete(NULL)`, which does not return. So the flag never
falls and no buffer is ever freed: the pause ends well exactly as long as no task has ended, and
a buffer is accounted for exactly as long as a running task owns it.
-/

namespace EspMesh
set_option autoImplicit false
set_option maxRecDepth 20000
open ByteMem Mem StepRuns

/-- The kernel's side: `vTaskDelete(NULL)` does not return to the task it ends. -/
def TaskDeleteEnds : SysEvent → Prop
  | .otaTask _ .returned => False
  | _ => True

def Owned (o : OtaShared) (b : ℕ) : Prop := ∃ t ∈ o.tasks, t.buf = b ∧ t.live = true

/-- Nothing is paused without a running upgrade, and every buffer that no task owns has been
freed exactly once. -/
structure PauseEnds (o : OtaShared) : Prop where
  flag : o.bDeviceOtaFlag = true → ∃ t ∈ o.tasks, t.live = true
  buffers : ∀ b (h : b < o.freed.length), (Owned o b → o.freed[b] = 0) ∧
    (¬ Owned o b → o.freed[b] = 1)

/-- No upgrade has ended, none was asked for while another was running, and every task that was
asked for was created. -/
def OnlyStarted (o : OtaShared) : Prop := ∀ mark ∈ o.marks, ∃ b, mark = .started b

/-! ## What the calls do to the shared state -/

theorem rootDoOta_cases (ip : List UInt8) (p : ℕ) (e : DoOtaEnv) (io : Io) (o : OtaShared) :
    (rootDoOta ip p e io o).2 = o ∨
      (rootDoOta ip p e io o).2.bDeviceOtaFlag = true ∧
      (rootDoOta ip p e io o).2.freed = o.freed ++ [0] ∧
      ((rootDoOta ip p e io o).2.tasks = o.tasks ∧
          (∃ mark, (mark = .busy o.freed.length ∨ mark = .notCreated o.freed.length) ∧
            (rootDoOta ip p e io o).2.marks = mark :: o.marks) ∨
        ∃ dest, (rootDoOta ip p e io o).2.tasks =
            o.tasks ++ [⟨o.freed.length, dest, .waiting, ⟨[], []⟩⟩] ∧
          (rootDoOta ip p e io o).2.marks = .started o.freed.length :: o.marks) := by
  unfold rootDoOta
  split
  · exact .inl rfl
  · right
    dsimp only
    split
    · exact ⟨rfl, rfl, .inl ⟨rfl, _, .inl rfl, rfl⟩⟩
    · split
      · exact ⟨rfl, rfl, .inr ⟨_, rfl, rfl⟩⟩
      · exact ⟨rfl, rfl, .inl ⟨rfl, _, .inr rfl, rfl⟩⟩

theorem OtaTask.next_spec (t : OtaTask) (e : OtaEvent) (he : e ≠ .returned) :
    (t.next e).buf = t.buf ∧
      ((t.next e).live = t.live ∨ t.pc = .exit ∧ e = .finish ∧ (t.next e).live = false) := by
  obtain ⟨buf, dest, pc, result⟩ := t
  cases e with
  | returned => exact absurd rfl he
  | finish =>
    cases pc with
    | exit => exact ⟨rfl, .inr ⟨rfl, rfl, rfl⟩⟩
    | _ => exact ⟨rfl, .inl rfl⟩
  | opened ok isRoot =>
    cases pc with
    | opening n =>
      constructor
      · simp only [OtaTask.next]
        split_ifs <;> rfl
      · left
        simp only [OtaTask.next]
        split_ifs <;> rfl
    | _ => exact ⟨rfl, .inl rfl⟩
  | headers n =>
    cases pc with
    | fetching =>
      refine ⟨rfl, .inl ?_⟩
      simp only [OtaTask.next]
      split_ifs <;> rfl
    | _ => exact ⟨rfl, .inl rfl⟩
  | chunk size ok =>
    cases pc with
    | downloading recvSize totalSize =>
      constructor
      · simp only [OtaTask.next]
        split_ifs <;> rfl
      · left
        simp only [OtaTask.next]
        split_ifs <;> rfl
    | _ => exact ⟨rfl, .inl rfl⟩
  | client ok | inited ok | checked ok => cases pc <;> cases ok <;> exact ⟨rfl, .inl rfl⟩
  | reported _ | sent _ _ => cases pc <;> exact ⟨rfl, .inl rfl⟩

theorem effect_spec (o : OtaShared) (t : OtaTask) (e : OtaEvent) (he : e ≠ .returned) :
    (o.effect t e).bDeviceOtaFlag = o.bDeviceOtaFlag ∧ (o.effect t e).freed = o.freed ∧
      (e = .finish ∧ t.pc = .exit ∧ (o.effect t e).marks = .ended t.buf :: o.marks ∨
        ¬ (t.pc = .exit ∧ e = .finish) ∧ (o.effect t e).marks = o.marks) := by
  unfold OtaShared.effect
  split
  · exact ⟨rfl, rfl, .inr ⟨fun h => (by cases h.2), rfl⟩⟩
  · exact ⟨rfl, rfl, .inr ⟨fun h => (by cases h.2), rfl⟩⟩
  · next hpc => exact ⟨rfl, rfl, .inl ⟨rfl, hpc, rfl⟩⟩
  · exact absurd rfl he
  · next hfinish _ => exact ⟨rfl, rfl, .inr ⟨fun h => hfinish h.2 h.1, rfl⟩⟩

theorem otaTaskStep_cases (self : Mac) (o : OtaShared) (i : ℕ) (e : OtaEvent)
    (he : e ≠ .returned) :
    (otaTaskStep self o i e).1 = o ∨ ∃ t t', o.tasks[i]? = some t ∧ t'.buf = t.buf ∧
      (otaTaskStep self o i e).1.tasks = o.tasks.set i t' ∧
      (otaTaskStep self o i e).1.bDeviceOtaFlag = o.bDeviceOtaFlag ∧
      (otaTaskStep self o i e).1.freed = o.freed ∧
      (t'.live = t.live ∧ (otaTaskStep self o i e).1.marks = o.marks ∨
        t'.live = false ∧ (otaTaskStep self o i e).1.marks = .ended t.buf :: o.marks) := by
  unfold otaTaskStep
  cases ht : o.tasks[i]? with
  | none => exact .inl rfl
  | some t =>
    obtain ⟨hbuf, hlive⟩ := t.next_spec e he
    obtain ⟨hflag, hfreed, hmarks⟩ := effect_spec o t e he
    refine .inr ⟨t, t.next e, rfl, hbuf, rfl, hflag, hfreed, ?_⟩
    rcases hmarks with ⟨rfl, hpc, hmarks⟩ | ⟨hnot, hmarks⟩
    · refine .inr ⟨?_, hmarks⟩
      obtain ⟨buf, dest, pc, result⟩ := t
      subst hpc
      rfl
    · exact .inl ⟨hlive.resolve_right fun h => hnot ⟨h.1, h.2.1⟩, hmarks⟩

theorem eq_of_mem_set {α β : Type} {f : α → β} {l : List α} {i : ℕ} (hi : i < l.length) {a u : α}
    (hnd : (l.map f).Nodup) (hu : u ∈ l.set i a) (hkey : f u = f l[i]) : u = a := by
  obtain ⟨j, hj, rfl⟩ := List.getElem_of_mem hu
  rw [List.getElem_set] at hkey ⊢
  split
  · rfl
  · next hij =>
    rw [if_neg hij] at hkey
    rw [List.length_set] at hj
    have hj' : j < (l.map f).length := by simpa using hj
    have hi' : i < (l.map f).length := by simpa using hi
    have heq : (l.map f)[j] = (l.map f)[i] := by rw [List.getElem_map, List.getElem_map, hkey]
    exact absurd (hnd.getElem_inj_iff.mp heq).symm hij

theorem map_set_same {α β : Type} {f : α → β} {l : List α} {i : ℕ} (hi : i < l.length) {a : α}
    (hkey : f a = f l[i]) : (l.set i a).map f = l.map f := by
  have hi' : i < (l.map f).length := by simpa using hi
  have hget : f l[i] = (l.map f)[i] := by rw [List.getElem_map]
  rw [List.map_set, hkey, hget, List.set_getElem_self]

/-! ## The ledger -/

/-- What holds of the shared state as long as no `vTaskDelete` returns. -/
structure OtaLedger (o : OtaShared) : Prop where
  unfreed : ∀ n ∈ o.freed, n = 0
  flag : o.bDeviceOtaFlag = true ↔ o.freed ≠ []
  bufs : ∀ t ∈ o.tasks, t.buf < o.freed.length
  distinct : (o.tasks.map OtaTask.buf).Nodup
  owned : OnlyStarted o ↔ ∀ b < o.freed.length, Owned o b

theorem otaLedger_boot : OtaLedger .boot :=
  ⟨by simp [OtaShared.boot], by simp [OtaShared.boot], by simp [OtaShared.boot],
    by simp [OtaShared.boot], by simp [OtaShared.boot, OnlyStarted]⟩

theorem onlyStarted_cons {o o' : OtaShared} {mark : OtaMark} (h : o'.marks = mark :: o.marks) :
    OnlyStarted o' ↔ (∃ b, mark = .started b) ∧ OnlyStarted o := by
  simp [OnlyStarted, h]

section Buffer
variable {o o' : OtaShared} (h : OtaLedger o) (hfreed : o'.freed = o.freed ++ [0])
include hfreed

theorem freed_length : o'.freed.length = o.freed.length + 1 := by
  rw [hfreed, List.length_append, List.length_singleton]

include h

theorem OtaLedger.unfreed_next : ∀ n ∈ o'.freed, n = 0 := by
  rw [hfreed, List.forall_mem_append]
  exact ⟨h.unfreed, List.forall_mem_singleton.mpr rfl⟩

theorem OtaLedger.bufs_next : ∀ t ∈ o.tasks, t.buf < o'.freed.length := by
  intro t ht
  rw [freed_length hfreed]
  exact Nat.lt_succ_of_lt (h.bufs t ht)

/-- A buffer that no task was created for has no owner. -/
theorem OtaLedger.unowned (hflag : o'.bDeviceOtaFlag = true) (htasks : o'.tasks = o.tasks)
    {mark : OtaMark} (hmark : ∀ b, mark ≠ .started b) (hmarks : o'.marks = mark :: o.marks) :
    OtaLedger o' where
  unfreed := h.unfreed_next hfreed
  flag := by simp [hflag, hfreed]
  bufs := by
    rw [htasks]
    exact h.bufs_next hfreed
  distinct := by
    rw [htasks]
    exact h.distinct
  owned := by
    rw [onlyStarted_cons hmarks]
    constructor
    · rintro ⟨⟨b, hb⟩, -⟩
      exact absurd hb (hmark b)
    · intro hall
      obtain ⟨t, ht, hbuf, -⟩ := hall o.freed.length
        (by rw [freed_length hfreed]; exact Nat.lt_succ_self _)
      rw [htasks] at ht
      exact absurd hbuf (h.bufs t ht).ne

/-- A new task owns the new buffer, and nothing changes for the others. -/
theorem OtaLedger.started (hflag : o'.bDeviceOtaFlag = true) {t : OtaTask}
    (hbuf : t.buf = o.freed.length) (hlive : t.live = true) (htasks : o'.tasks = o.tasks ++ [t])
    (hmarks : o'.marks = .started o.freed.length :: o.marks) : OtaLedger o' where
  unfreed := h.unfreed_next hfreed
  flag := by simp [hflag, hfreed]
  bufs := by
    rw [htasks, List.forall_mem_append, List.forall_mem_singleton]
    refine ⟨h.bufs_next hfreed, ?_⟩
    rw [hbuf, freed_length hfreed]
    exact Nat.lt_succ_self _
  distinct := by
    rw [htasks, List.map_append, List.nodup_append]
    refine ⟨h.distinct, by simp, ?_⟩
    intro b hb c hc hbc
    obtain ⟨u, hu, rfl⟩ := List.mem_map.mp hb
    have hnew : c = o.freed.length := by simpa [hbuf] using hc
    exact absurd (hbc.trans hnew) (h.bufs u hu).ne
  owned := by
    have hown : ∀ b, Owned o' b ↔ Owned o b ∨ b = o.freed.length := by
      intro b
      simp only [Owned, htasks, List.mem_append, List.mem_singleton, or_and_right, exists_or,
        exists_eq_left, hbuf, hlive, and_true]
      exact or_congr_right eq_comm
    rw [onlyStarted_cons hmarks, h.owned, freed_length hfreed]
    constructor
    · rintro ⟨-, hall⟩ b hb
      rw [hown]
      exact (Nat.lt_succ_iff_lt_or_eq.mp hb).imp (hall b) id
    · intro hall
      refine ⟨⟨_, rfl⟩, fun b hb => ?_⟩
      exact ((hown b).mp (hall b (Nat.lt_succ_of_lt hb))).resolve_right hb.ne

end Buffer

theorem OtaLedger.call {o : OtaShared} (h : OtaLedger o) (ip : List UInt8) (p : ℕ) (e : DoOtaEnv)
    (io : Io) : OtaLedger (rootDoOta ip p e io o).2 := by
  rcases rootDoOta_cases ip p e io o with heq | ⟨hflag, hfreed, hcase⟩
  · rw [heq]
    exact h
  · rcases hcase with ⟨htasks, mark, hmark, hmarks⟩ | ⟨dest, htasks, hmarks⟩
    · refine h.unowned hfreed hflag htasks ?_ hmarks
      rintro b rfl
      exact hmark.elim OtaMark.noConfusion OtaMark.noConfusion
    · exact h.started hfreed hflag rfl rfl htasks hmarks

/-- A task that keeps its buffer and its life leaves every buffer with the owner it had. -/
theorem owned_moved {o o' : OtaShared} {i : ℕ} {t' : OtaTask} (hi : i < o.tasks.length)
    (htasks : o'.tasks = o.tasks.set i t') (hbuf : t'.buf = o.tasks[i].buf)
    (hlive : t'.live = o.tasks[i].live) (b : ℕ) : Owned o' b ↔ Owned o b := by
  simp only [Owned, htasks]
  constructor
  · rintro ⟨u, hu, hub, hul⟩
    rcases List.mem_or_eq_of_mem_set hu with hu | rfl
    · exact ⟨u, hu, hub, hul⟩
    · exact ⟨o.tasks[i], List.getElem_mem hi, hbuf.symm.trans hub, hlive.symm.trans hul⟩
  · rintro ⟨u, hu, hub, hul⟩
    obtain ⟨j, hj, rfl⟩ := List.getElem_of_mem hu
    by_cases hij : i = j
    · subst hij
      exact ⟨t', List.mem_set hi t', hbuf.trans hub, hlive.trans hul⟩
    · refine ⟨o.tasks[j], ?_, hub, hul⟩
      rw [List.mem_iff_getElem]
      exact ⟨j, by simpa using hj, by rw [List.getElem_set_ne hij]⟩

theorem OtaLedger.taskStep {o : OtaShared} (h : OtaLedger o) (self : Mac) (i : ℕ) (e : OtaEvent)
    (he : e ≠ .returned) : OtaLedger (otaTaskStep self o i e).1 := by
  rcases otaTaskStep_cases self o i e he with heq | ⟨t, t', ht, hbuf, htasks, hflag, hfreed, hcase⟩
  · rw [heq]
    exact h
  obtain ⟨hi, rfl⟩ := List.getElem?_eq_some_iff.mp ht
  have hbufs : (otaTaskStep self o i e).1.tasks.map OtaTask.buf = o.tasks.map OtaTask.buf := by
    rw [htasks]
    exact map_set_same hi hbuf
  refine ⟨by rw [hfreed]; exact h.unfreed, by rw [hflag, hfreed]; exact h.flag, ?_,
    by rw [hbufs]; exact h.distinct, ?_⟩
  · intro u hu
    have hmem : u.buf ∈ o.tasks.map OtaTask.buf := hbufs ▸ List.mem_map_of_mem hu
    obtain ⟨v, hv, hvb⟩ := List.mem_map.mp hmem
    rw [hfreed, ← hvb]
    exact h.bufs v hv
  · rw [hfreed]
    rcases hcase with ⟨hlive, hmarks⟩ | ⟨hdead, hmarks⟩
    · -- The task has moved on; whoever owned a buffer still does.
      simp only [OnlyStarted, hmarks, owned_moved hi htasks hbuf hlive]
      exact h.owned
    · -- The task has ended, and nobody else has its buffer.
      rw [onlyStarted_cons hmarks]
      refine iff_of_false (fun hs => ?_) fun hall => ?_
      · obtain ⟨b, hb⟩ := hs.1
        cases hb
      · obtain ⟨u, hu, hub, hul⟩ := hall o.tasks[i].buf (h.bufs _ (List.getElem_mem hi))
        rw [htasks] at hu
        rw [eq_of_mem_set hi h.distinct hu hub, hdead] at hul
        cases hul

theorem OtaLedger.pauseEnds_iff {o : OtaShared} (h : OtaLedger o) :
    PauseEnds o ↔ OnlyStarted o := by
  have hzero : ∀ b (hb : b < o.freed.length), o.freed[b] = 0 := fun b hb =>
    h.unfreed _ (List.getElem_mem hb)
  rw [h.owned]
  constructor
  · intro hp b hb
    by_contra hno
    have := (hp.buffers b hb).2 hno
    rw [hzero b hb] at this
    cases this
  · intro hall
    refine ⟨fun hflag => ?_, fun b hb => ⟨fun _ => hzero b hb, fun hno => absurd (hall b hb) hno⟩⟩
    obtain ⟨t, ht, _, hlive⟩ := hall 0 (List.length_pos_of_ne_nil (h.flag.mp hflag))
    exact ⟨t, ht, hlive⟩

/-! ## Steps of the root -/

/-- What a step of the root can do to the state shared with the tasks: nothing, or one call of
`root_do_ota`. -/
def OtaCall (o o' : OtaShared) : Prop := o' = o ∨ ∃ ip p e io, o' = (rootDoOta ip p e io o).2

theorem command_otaCall (w : World) (p : ℕ) (e : CmdEnv) (io : Io) :
    OtaCall w.ota (doProcessDataFromTcpserOrRoot w p e io).2.ota := by
  unfold doProcessDataFromTcpserOrRoot
  dsimp only
  split
  · split
    · exact .inr ⟨_, _, _, _, rfl⟩
    all_goals exact .inl rfl
  · exact .inl rfl

theorem node_ota (w : World) (which : Mac) (p : ℕ) (e : CmdEnv) (io : Io) :
    (doProcessDataFromNode w which p e io).2.ota = w.ota := by
  unfold doProcessDataFromNode
  dsimp only
  split
  · split <;> rfl
  · split
    · split <;> rfl
    · rfl

theorem rootConnect_ota (e : RootEnv) (s : Sys) : (rootConnect e s).1.w.ota = s.w.ota := by
  unfold rootConnect
  split <;> rfl

theorem rootServe_otaCall (e : RootEnv) (s : Sys) : OtaCall s.w.ota (rootServe e s).w.ota := by
  have hoff : (rootOffline e s).w.ota = s.w.ota := by
    unfold rootOffline
    split <;> rfl
  simp only [rootServe, ← hoff]
  generalize rootOffline e s = s'
  unfold rootCommand
  split
  · exact .inl rfl
  · dsimp only
    split
    · exact .inl rfl
    · exact command_otaCall _ _ _ _

theorem rootTop_otaCall (e : RootEnv) (s : Sys) : OtaCall s.w.ota (rootTop e s).w.ota := by
  unfold rootTop
  split
  · exact .inl rfl
  · dsimp only
    rw [rootPing_w]
    split
    · exact .inl (by rw [rootPing_w])
    · have hcon := rootConnect_ota e (rootPing e s)
      rw [rootPing_w] at hcon
      split
      · next heq =>
        rw [heq] at hcon
        exact .inl hcon
      · next heq =>
        rw [heq] at hcon
        rw [← hcon]
        exact rootServe_otaCall _ _

theorem rootRead_otaCall (pkt : Option MeshPacket) (e : CmdEnv) (s : Sys) :
    OtaCall s.w.ota (rootRead pkt e s).w.ota := by
  cases pkt with
  | none => exact .inl rfl
  | some pkt =>
    unfold rootRead
    dsimp only
    split
    · exact .inl rfl
    · unfold rootBusiness
      dsimp only
      split
      · split
        · exact command_otaCall _ _ _ _
        · exact .inl (node_ota _ _ _ _ _)
      · exact .inl rfl

theorem step_ota (s : Sys) (ev : SysEvent) (hev : TaskDeleteEnds ev) :
    OtaCall s.w.ota (s.step ev).w.ota ∨
      ∃ i e, e ≠ .returned ∧ (s.step ev).w.ota = (otaTaskStep s.w.gSelfMac s.w.ota i e).1 := by
  cases ev with
  | rootStart sqmsg => left; simp only [Sys.step]; split <;> exact .inl rfl
  | rootTop e =>
    left
    simp only [Sys.step]
    split
    · exact rootTop_otaCall e s
    · exact .inl rfl
  | rootRead pkt e =>
    left
    simp only [Sys.step]
    split
    · exact rootRead_otaCall pkt e s
    · exact .inl rfl
  | tcpStart sqmsg => left; simp only [Sys.step]; split <;> exact .inl rfl
  | tcpTurn e => left; simp only [Sys.step]; split <;> exact .inl rfl
  | otaTask i e =>
    refine .inr ⟨i, e, ?_, rfl⟩
    rintro rfl
    exact hev

theorem step_otaLedger (s : Sys) (ev : SysEvent) (h : OtaLedger s.w.ota)
    (hev : TaskDeleteEnds ev) : OtaLedger (s.step ev).w.ota := by
  rcases step_ota s ev hev with (heq | ⟨ip, p, e, io, heq⟩) | ⟨i, e, he, heq⟩ <;> rw [heq]
  · exact h
  · exact h.call ip p e io
  · exact h.taskStep _ i e he

theorem step_lasts (s : Sys) (ev : SysEvent) (hev : TaskDeleteEnds ev) :
    (s.w.ota.bDeviceOtaFlag = true → (s.step ev).w.ota.bDeviceOtaFlag = true) ∧
      (OnlyStarted (s.step ev).w.ota → OnlyStarted s.w.ota) := by
  rcases step_ota s ev hev with (heq | ⟨ip, p, e, io, heq⟩) | ⟨i, e, he, heq⟩ <;> rw [heq]
  · exact ⟨id, id⟩
  · rcases rootDoOta_cases ip p e io s.w.ota with hc |
      ⟨hflag, _, ⟨_, _, _, hmarks⟩ | ⟨_, _, hmarks⟩⟩
    · rw [hc]
      exact ⟨id, id⟩
    · exact ⟨fun _ => hflag, fun h => ((onlyStarted_cons hmarks).mp h).2⟩
    · exact ⟨fun _ => hflag, fun h => ((onlyStarted_cons hmarks).mp h).2⟩
  · rcases otaTaskStep_cases s.w.gSelfMac s.w.ota i e he with
      hc | ⟨_, _, _, _, _, hflag, _, ⟨_, hmarks⟩ | ⟨_, hmarks⟩⟩
    · rw [hc]
      exact ⟨id, id⟩
    · exact ⟨fun h => hflag.trans h, by simp only [OnlyStarted, hmarks]; exact id⟩
    · exact ⟨fun h => hflag.trans h, fun h => ((onlyStarted_cons hmarks).mp h).2⟩

/-! ## Runs of the root -/

/-- Once an upgrade was asked for, the root is deaf for good. -/
theorem pause_lasts (s : Sys) (es : List SysEvent) (hes : ∀ ev ∈ es, TaskDeleteEnds ev)
    (h : s.w.ota.bDeviceOtaFlag = true) : (run Sys.step s es).w.ota.bDeviceOtaFlag = true :=
  run_invariant_along (I := fun s => s.w.ota.bDeviceOtaFlag = true)
    (C := fun _ ev => TaskDeleteEnds ev) (fun s ev hs hev => (step_lasts s ev hev).1 hs) h
    (along_of_forall fun _ ev hev => hes ev hev)

theorem run_pauseEnds (es : List SysEvent) (hes : ∀ ev ∈ es, TaskDeleteEnds ev) (s : Sys)
    (h : OtaLedger s.w.ota) :
    Through Sys.step (fun s => PauseEnds s.w.ota) s es ↔ OnlyStarted (run Sys.step s es).w.ota := by
  induction es generalizing s with
  | nil => exact h.pauseEnds_iff
  | cons ev es ih =>
    have hev := hes ev (List.mem_cons_self ..)
    have hih := ih (fun ev' h' => hes ev' (List.mem_cons_of_mem _ h')) _ (step_otaLedger s ev h hev)
    rw [run_cons, ← hih, Through, and_iff_right_iff_imp]
    intro hrest
    rw [h.pauseEnds_iff]
    exact (step_lasts s ev hev).2 ((step_otaLedger s ev h hev).pauseEnds_iff.mp hrest.first)

/-- **The pause.** On a kernel whose `vTaskDelete(NULL)` does not return, the pause ends as it
should and the buffers are accounted for in every state of a run exactly when in that run no
upgrade ends, none is asked for while another is running, and every task is created. -/
theorem ota_pause (mac : Mac) (ip : List UInt8) (bytes tcpBytes : ℕ → UInt8)
    (sqmsg : ServerqueueMsg) (es : List SysEvent) (hes : ∀ ev ∈ es, TaskDeleteEnds ev) :
    Through Sys.step (fun s => PauseEnds s.w.ota) (.boot mac ip bytes tcpBytes sqmsg) es ↔
      OnlyStarted (run Sys.step (.boot mac ip bytes tcpBytes sqmsg) es).w.ota :=
  run_pauseEnds es hes _ otaLedger_boot

/-! ## An upgrade on the wire -/

def Sys.ReachableRtos (s : Sys) : Prop :=
  ∃ mac ip bytes tcpBytes sqmsg es, (∀ ev ∈ es, TaskDeleteEnds ev) ∧
    run Sys.step (.boot mac ip bytes tcpBytes sqmsg) es = s

theorem Sys.ReachableRtos.otaLedger {s : Sys} (h : s.ReachableRtos) : OtaLedger s.w.ota := by
  obtain ⟨mac, ip, bytes, tcpBytes, sqmsg, es, hes, rfl⟩ := h
  refine run_invariant_along (I := fun s => OtaLedger s.w.ota)
    (C := fun _ ev => TaskDeleteEnds ev) (fun s ev hs hev => step_otaLedger s ev hs hev) ?_
    (along_of_forall fun _ ev hev => hes ev hev)
  exact otaLedger_boot

/-- An iteration that starts in `s` takes the waiting upgrade packet and passes it on as it is. -/
def TakesUpgrade (s : Sys) (e : RootEnv) (pkt : MeshPacket) (c : CmdEnv) : Prop :=
  (run Sys.step s [.rootTop e, .rootRead (some pkt) c]).io.trace =
    .mupgradeRootHandle pkt.src pkt.data :: .mwifiRootRead pkt.src pkt.data ::
      (s.step (.rootTop e)).io.trace

theorem paused_takes_nothing (s : Sys) (hpc : s.root.pc = .top)
    (hflag : s.w.ota.bDeviceOtaFlag = true) (e : RootEnv) (hc : e.connected = true)
    (hr : e.isRoot = true) (pkt : MeshPacket) (c : CmdEnv) : ¬ TakesUpgrade s e pkt c := by
  have htop : s.step (.rootTop e) = rootPing e s := by
    simp [Sys.step, hpc, rootTop, hc, hr, hflag]
  have hread : (rootPing e s).step (.rootRead (some pkt) c) = rootPing e s := by
    simp [Sys.step, hpc]
  intro htake
  rw [TakesUpgrade, run_cons, run_cons, run_nil, htop, hread] at htake
  have hlen := congrArg List.length htake
  simp only [List.length_cons] at hlen
  omega

/-- **Starved.** While an `ota_task` is inside `mupgrade_firmware_send`, no iteration takes an
upgrade packet, whatever is waiting. -/
theorem upgrade_starved (s : Sys) (hs : s.ReachableRtos) (hpc : s.root.pc = .top)
    (hsend : ∃ t ∈ s.w.ota.tasks, t.pc = .sending) (e : RootEnv) (hc : e.connected = true)
    (hr : e.isRoot = true) (pkt : MeshPacket) (_hup : pkt.type.upgrade = true) (c : CmdEnv) :
    ¬ TakesUpgrade s e pkt c := by
  obtain ⟨t, ht, _⟩ := hsend
  have hledger := hs.otaLedger
  have hflag : s.w.ota.bDeviceOtaFlag = true := by
    rw [hledger.flag]
    exact List.ne_nil_of_length_pos ((Nat.zero_le _).trans_lt (hledger.bufs t ht))
  exact paused_takes_nothing s hpc hflag e hc hr pkt c

/-! ## A run with one upgrade -/

/-- The OTA command for the root 02:..:02 and one node. -/
def otaFrame : Bytes 101 :=
  ⟨List.replicate 6 2 ++ [1, 1] ++ (97 :: List.replicate 31 0) ++ [1] ++ List.replicate 6 10 ++
    List.replicate 54 0, rfl⟩

/-- The command is read, queued and executed: the task waits. -/
def otaStarted : List SysEvent :=
  connected ++ [.tcpTurn (readTurn otaFrame.val (by decide)), .rootRead none idleCmd,
    .rootTop (idleEnv 2000), .rootRead none idleCmd]

def otaRoot (es : List SysEvent) : Sys := run Sys.step zeroBoot (otaStarted ++ es)

theorem otaStarted_deleteEnds : ∀ ev ∈ otaStarted, TaskDeleteEnds ev := by
  simp [otaStarted, connected, startEvents, TaskDeleteEnds]

theorem otaRoot_reachable (es : List SysEvent) (hes : ∀ ev ∈ es, TaskDeleteEnds ev) :
    (otaRoot es).ReachableRtos := by
  refine ⟨_, _, _, _, _, otaStarted ++ es, fun ev hev => ?_, rfl⟩
  exact (List.mem_append.mp hev).elim (otaStarted_deleteEnds ev) (hes ev)

theorem ota_pause_started :
    Through Sys.step (fun s => PauseEnds s.w.ota)
      zeroBoot otaStarted := by
  refine (ota_pause (macOf 2) [] (fun _ => 0) (fun _ => 0) zeroSqmsg otaStarted
    otaStarted_deleteEnds).mpr fun mark hmark => ?_
  have hmarks : (otaRoot []).w.ota.marks = [.started 0] := by decide
  rw [show otaStarted = otaStarted ++ [] from (List.append_nil _).symm] at hmark
  exact ⟨0, List.mem_singleton.mp (hmarks ▸ hmark)⟩

/-- The server has no content under the firmware's name and the task ends: the flag stays up and
the buffer is not freed. -/
theorem pause_outlives_task :
    let es := [.otaTask 0 (.client true), .otaTask 0 (.opened true true), .otaTask 0 (.headers 0),
      .otaTask 0 (.reported 0), .otaTask 0 .finish]
    (otaRoot es).ReachableRtos ∧ (otaRoot es).w.ota.bDeviceOtaFlag = true ∧
      (∀ t ∈ (otaRoot es).w.ota.tasks, t.live = false) ∧ (otaRoot es).w.ota.freed = [0] ∧
      ¬ PauseEnds (otaRoot es).w.ota := by
  intro es
  have hdead : ∀ t ∈ (otaRoot es).w.ota.tasks, t.live = false := by decide
  have hflag : (otaRoot es).w.ota.bDeviceOtaFlag = true := by decide
  refine ⟨otaRoot_reachable es (by simp [es, TaskDeleteEnds]), hflag, hdead, by decide, fun h => ?_⟩
  obtain ⟨t, ht, hlive⟩ := h.flag hflag
  rw [hdead t ht] at hlive
  cases hlive

/-- The upgrade has got as far as `mupgrade_firmware_send`. -/
def sendingEvents : List SysEvent :=
  [.otaTask 0 (.client true), .otaTask 0 (.opened true true), .otaTask 0 (.headers 10),
    .otaTask 0 (.inited true), .otaTask 0 (.chunk 10 true), .otaTask 0 (.checked true)]

def upgradePacket : MeshPacket :=
  ⟨macOf 10, ⟨true, .unicast⟩, [1, 2, 3], by decide⟩

theorem otaRoot_sending : ∃ t ∈ (otaRoot sendingEvents).w.ota.tasks, t.pc = .sending := by
  decide

theorem sendingEvents_deleteEnds : ∀ ev ∈ sendingEvents, TaskDeleteEnds ev := by
  simp [sendingEvents, TaskDeleteEnds]

theorem upgrade_starved_once :
    ¬ TakesUpgrade (otaRoot sendingEvents) (idleEnv 3000) upgradePacket idleCmd :=
  upgrade_starved (otaRoot sendingEvents)
    (otaRoot_reachable sendingEvents sendingEvents_deleteEnds) (by decide) otaRoot_sending
    (idleEnv 3000) rfl rfl upgradePacket rfl idleCmd

theorem waiting_packet_not_taken :
    (otaRoot sendingEvents).ReachableRtos ∧ (otaRoot sendingEvents).root.pc = .top ∧
      (otaRoot sendingEvents).w.ota.gMupgradeSendRunningFlag = true ∧
      (∃ t ∈ (otaRoot sendingEvents).w.ota.tasks, t.pc = .sending) ∧
      upgradePacket.type.upgrade = true ∧
      ¬ TakesUpgrade (otaRoot sendingEvents) (idleEnv 3000) upgradePacket idleCmd :=
  ⟨otaRoot_reachable sendingEvents sendingEvents_deleteEnds, by decide, by decide,
    otaRoot_sending, rfl, paused_takes_nothing _ (by decide) (by decide) _ rfl rfl _ _⟩

end EspMesh
