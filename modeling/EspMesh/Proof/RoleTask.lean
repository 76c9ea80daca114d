import EspMesh.Library.StepRuns
import EspMesh.Model.EventLoop

/-! # One task for the role of a device

The tasks of the root are marked by their creation. `node_task` marks itself once it runs, and
takes the mark away some time after it has left its loop: an event that is handled in the one gap
makes a second task, and in the other gap none.
-/

namespace EspMesh
set_option autoImplicit false
open StepRuns

/-! ## What is wanted -/

/-- No event is to be handled and no task is starting or ending. -/
structure RoleState.Quiet (s : RoleState) : Prop where
  handled : s.events = []
  nodeTask : ∀ pc ∈ s.nodeTask.tasks, pc.inLoop = true
  tcpClientReadTask : ∀ pc ∈ s.tcpClientReadTask.tasks, pc.inLoop = true
  rootMeshReadTask : ∀ pc ∈ s.rootMeshReadTask.tasks, pc.inLoop = true

structure OneTaskPerRole (s : RoleState) : Prop where
  nodeTask : s.nodeTask.tasks.length ≤ 1
  tcpClientReadTask : s.tcpClientReadTask.tasks.length ≤ 1
  rootMeshReadTask : s.rootMeshReadTask.tasks.length ≤ 1
  running : s.Quiet → s.connected = true → s.isRoot = false → s.nodeTask.tasks ≠ []

/-- `MDF_EVENT_MWIFI_PARENT_CONNECTED` is not handled on a node while a `node_task` has not yet
started, and not while one is ending if the node is connected then. -/
def HandledInLoop (s : RoleState) : RoleEvent → Prop
  | .handle => s.events.head? = some .mwifiParentConnected → s.isRoot = false →
      .created ∉ s.nodeTask.tasks ∧
        (s.connected = true → ∀ pc ∈ s.nodeTask.tasks, pc.ending = false)
  | _ => True

/-! ## The invariant -/

/-- A handle stands for one task. -/
inductive OneHandled : RoleTasks → Prop
  | none : OneHandled ⟨false, []⟩
  | one (pc : TaskPc) : OneHandled ⟨true, [pc]⟩

/-- The mark stands for one task that has started. -/
inductive OneMarked : RoleTasks → Prop
  | none : OneMarked ⟨false, []⟩
  | created : OneMarked ⟨false, [.created]⟩
  | started (pc : TaskPc) (h : pc ≠ .created) : OneMarked ⟨true, [pc]⟩

/-- A connected node has a task that stays, or will handle the event that makes one. -/
structure Served (s : RoleState) : Prop where
  nodeTask : OneMarked s.nodeTask
  tcpClientReadTask : OneHandled s.tcpClientReadTask
  rootMeshReadTask : OneHandled s.rootMeshReadTask
  served : s.connected = true → s.isRoot = false → .mwifiParentConnected ∈ s.events ∨
    ∃ pc ∈ s.nodeTask.tasks, pc.ending = false

/-! ## A step of a task -/

section Turn
variable {r : RoleTasks} {connected inRole : Bool} {i : ℕ}

theorem OneHandled.create (h : OneHandled r) (hmark : r.mark = false) :
    OneHandled (r.create true) := by
  cases h with
  | none => exact .one _
  | one pc => cases hmark

theorem OneHandled.turn (h : OneHandled r) : OneHandled (r.turn false connected inRole i) := by
  cases h with
  | none => exact .none
  | one pc =>
    cases i with
    | zero =>
      cases pc with
      | created => exact .one _
      | isConnected => exact .one _
      | getLayer => exact .one _
      | leaving => exact .one _
      | exit => exact .none
    | succ i => exact .one _

theorem OneMarked.turn (h : OneMarked r) : OneMarked (r.turn true connected inRole i) := by
  cases h with
  | none => exact .none
  | created =>
    cases i with
    | zero => exact .started _ (by decide)
    | succ i => exact .created
  | started pc hpc =>
    cases i with
    | zero =>
      cases pc with
      | created => exact absurd rfl hpc
      | isConnected => cases connected <;> exact .started _ (by decide)
      | getLayer => cases inRole <;> exact .started _ (by decide)
      | leaving => exact .started _ (by decide)
      | exit => exact .none
    | succ i => exact .started pc hpc

/-- A task whose tests succeed stays. -/
theorem stays_turn (h : OneMarked r) (hstays : ∃ pc ∈ r.tasks, pc.ending = false) :
    ∃ pc ∈ (r.turn true true true i).tasks, pc.ending = false := by
  obtain ⟨pc, hmem, hpc⟩ := hstays
  cases h with
  | none => cases hmem
  | created =>
    cases i with
    | zero => exact ⟨_, List.mem_singleton_self _, rfl⟩
    | succ i => exact ⟨_, List.mem_singleton_self _, rfl⟩
  | started pc' _ =>
    obtain rfl := List.mem_singleton.mp hmem
    cases i with
    | zero =>
      cases pc with
      | created => exact ⟨_, List.mem_singleton_self _, rfl⟩
      | isConnected => exact ⟨_, List.mem_singleton_self _, rfl⟩
      | getLayer => exact ⟨_, List.mem_singleton_self _, rfl⟩
      | leaving => cases hpc
      | exit => cases hpc
    | succ i => exact ⟨pc, hmem, hpc⟩

theorem OneHandled.length_le (h : OneHandled r) : r.tasks.length ≤ 1 := by
  cases h <;> simp

theorem OneMarked.length_le (h : OneMarked r) : r.tasks.length ≤ 1 := by
  cases h <;> simp

end Turn

/-! ## An event -/

section Events
variable {s : RoleState}

/-- More events to be handled change nothing. -/
theorem Served.posted (h : Served s) (event : MdfEvent) :
    Served { s with events := s.events ++ [event] } :=
  ⟨h.nodeTask, h.tcpClientReadTask, h.rootMeshReadTask, fun hconnected hrole =>
    (h.served hconnected hrole).imp_left (List.mem_append_left _)⟩

theorem connect_served (h : Served s) (isRoot : Bool) : Served (roleStep s (.connect isRoot)) :=
  ⟨h.nodeTask, h.tcpClientReadTask, h.rootMeshReadTask, fun _ _ =>
    .inl (List.mem_append_right _ (List.mem_singleton_self _))⟩

theorem disconnect_served (h : Served s) : Served (roleStep s .disconnect) :=
  ⟨h.nodeTask, h.tcpClientReadTask, h.rootMeshReadTask, fun hconnected => by cases hconnected⟩

theorem nodeTask_served (h : Served s) (i : ℕ) : Served (roleStep s (.nodeTask i)) := by
  refine ⟨h.nodeTask.turn, h.tcpClientReadTask, h.rootMeshReadTask, fun hconnected hrole => ?_⟩
  refine (h.served hconnected hrole).imp_right fun hstays => ?_
  have hconnected' : s.connected = true := hconnected
  have hrole' : s.isRoot = false := hrole
  rw [roleStep, hconnected', hrole']
  exact stays_turn h.nodeTask hstays

/-- An event that is handled without a change to the tasks of a node is not the one that a node
waits for. -/
theorem Served.handled (h : Served s) {event : MdfEvent} {events : List MdfEvent}
    (hevents : s.events = event :: events)
    (hevent : event = .mwifiParentConnected → s.isRoot = true) :
    Served { s with events := events } := by
  refine ⟨h.nodeTask, h.tcpClientReadTask, h.rootMeshReadTask, fun hconnected hrole => ?_⟩
  refine (h.served hconnected hrole).imp_left fun hmem => ?_
  rw [hevents, List.mem_cons] at hmem
  refine hmem.resolve_left fun heq => ?_
  exact absurd ((hevent heq.symm).symm.trans hrole) (by decide)

theorem parentConnected_served (h : Served s) {events : List MdfEvent}
    (hevents : s.events = .mwifiParentConnected :: events)
    (hloop : HandledInLoop s .handle) :
    Served (eventLoopCb { s with events := events } .mwifiParentConnected) := by
  obtain ⟨connected, isRoot, pending, nodeTask, tcpClientReadTask, rootMeshReadTask⟩ := s
  cases isRoot with
  | true => exact h.handled hevents fun _ => rfl
  | false =>
    obtain rfl : pending = .mwifiParentConnected :: events := hevents
    obtain ⟨hcreated, hending⟩ := hloop rfl rfl
    have hnode : OneMarked nodeTask := h.nodeTask
    cases hnode with
    | none =>
      exact ⟨.created, h.tcpClientReadTask, h.rootMeshReadTask, fun _ _ =>
        .inr ⟨_, List.mem_singleton_self _, rfl⟩⟩
    | created => exact absurd (List.mem_singleton_self _) hcreated
    | started pc hpc =>
      refine ⟨.started pc hpc, h.tcpClientReadTask, h.rootMeshReadTask, fun hconnected _ => ?_⟩
      have hmem : pc ∈ [pc] := List.mem_singleton_self pc
      exact .inr ⟨pc, hmem, hending hconnected pc hmem⟩

theorem rootGotIp_served (h : Served s) : Served (eventLoopCb s .mwifiRootGotIp) := by
  rw [eventLoopCb]
  split
  · rename_i hroot
    refine ⟨h.nodeTask, ?_, ?_, fun _ hrole => absurd (hroot.symm.trans hrole) (by decide)⟩
    · dsimp only
      split
      · rename_i hmark
        exact h.tcpClientReadTask.create (by simpa using hmark)
      · exact h.tcpClientReadTask
    · dsimp only
      split
      · rename_i hmark
        exact h.rootMeshReadTask.create (by simpa using hmark)
      · exact h.rootMeshReadTask
  · exact h

theorem handle_served (h : Served s) (hloop : HandledInLoop s .handle) :
    Served (roleStep s .handle) := by
  rw [roleStep]
  split
  · exact h
  · rename_i event events hevents
    cases event with
    | mwifiParentConnected => exact parentConnected_served h hevents hloop
    | mwifiRootGotIp => exact rootGotIp_served (h.handled hevents fun heq => by cases heq)
    | _ => exact h.handled hevents fun heq => by cases heq

end Events

theorem step_served (s : RoleState) (e : RoleEvent) (h : Served s) (hloop : HandledInLoop s e) :
    Served (roleStep s e) := by
  cases e with
  | connect isRoot => exact connect_served h isRoot
  | disconnect => exact disconnect_served h
  | post event => exact h.posted event
  | handle => exact handle_served h hloop
  | nodeTask i => exact nodeTask_served h i
  | tcpClientReadTask i =>
    exact ⟨h.nodeTask, h.tcpClientReadTask.turn, h.rootMeshReadTask, h.served⟩
  | rootMeshReadTask i =>
    exact ⟨h.nodeTask, h.tcpClientReadTask, h.rootMeshReadTask.turn, h.served⟩

theorem Served.oneTask {s : RoleState} (h : Served s) : OneTaskPerRole s where
  nodeTask := h.nodeTask.length_le
  tcpClientReadTask := h.tcpClientReadTask.length_le
  rootMeshReadTask := h.rootMeshReadTask.length_le
  running hquiet hconnected hrole hnone := by
    rcases h.served hconnected hrole with hmem | ⟨pc, hmem, -⟩
    · rw [hquiet.handled] at hmem
      cases hmem
    · rw [hnone] at hmem
      cases hmem

theorem boot_served : Served .boot :=
  ⟨.none, .none, .none, fun hconnected => by cases hconnected⟩

/-- **One task for a role.** Whatever the mesh does and however its events, their handling and the
steps of the tasks follow each other: there is never a second task for a role, and a connected
node has its task once all is quiet, as long as no event that makes a `node_task` is handled in
front of the start of one or behind the end of its loop. -/
theorem running_role_has_one_task (es : List RoleEvent)
    (hloop : Along roleStep HandledInLoop .boot es) :
    Through roleStep OneTaskPerRole .boot es :=
  through_of_invariant_along step_served (fun _ h => h.oneTask) boot_served hloop

/-- A node that connects, is disconnected and connects again behind the end of its task. -/
def reconnected : List RoleEvent :=
  [.connect false, .handle, .nodeTask 0, .disconnect, .handle, .nodeTask 0, .nodeTask 0,
    .nodeTask 0, .connect false, .handle, .nodeTask 0]

theorem running_role_has_one_task_again : Through roleStep OneTaskPerRole .boot reconnected := by
  refine running_role_has_one_task reconnected ?_
  refine ⟨trivial, ?_, trivial, trivial, ?_, trivial, trivial, trivial, trivial, ?_, trivial,
    trivial⟩
  all_goals simp [HandledInLoop, roleStep, eventLoopCb, RoleState.boot, RoleTasks.turn,
    RoleTasks.create]

/-! ## The two gaps -/

section Gaps
variable {s : RoleState}

/-- A device that is not the root and has its mark set lets all events pass. -/
theorem handle_all (s : RoleState) (hrole : s.isRoot = false) (hmark : s.nodeTask.mark = true) :
    run roleStep s (List.replicate s.events.length .handle) = { s with events := [] } := by
  obtain ⟨connected, isRoot, events, nodeTask, tcpClientReadTask, rootMeshReadTask⟩ := s
  subst hrole
  induction events with
  | nil => rfl
  | cons event events ih =>
    have hpass : roleStep ⟨connected, false, event :: events, nodeTask, tcpClientReadTask,
        rootMeshReadTask⟩ .handle =
        ⟨connected, false, events, nodeTask, tcpClientReadTask, rootMeshReadTask⟩ := by
      have hmark' : nodeTask.mark = true := hmark
      cases event <;> simp [roleStep, eventLoopCb, hmark']
    rw [List.length_cons, List.replicate_succ, run_cons, hpass]
    exact ih hmark

/-- The tasks of the root end on another device. -/
theorem rootTasks_end (hrole : s.isRoot = false) (htcp : OneHandled s.tcpClientReadTask)
    (hmesh : OneHandled s.rootMeshReadTask) :
    run roleStep s (List.replicate 5 (.tcpClientReadTask 0) ++
      List.replicate 5 (.rootMeshReadTask 0)) =
        { s with tcpClientReadTask := ⟨false, []⟩, rootMeshReadTask := ⟨false, []⟩ } := by
  obtain ⟨connected, isRoot, events, nodeTask, tcpClientReadTask, rootMeshReadTask⟩ := s
  subst hrole
  have hend : ∀ r, OneHandled r → RoleTasks.turn false connected false 0
      (RoleTasks.turn false connected false 0 (RoleTasks.turn false connected false 0
        (RoleTasks.turn false connected false 0 (RoleTasks.turn false connected false 0 r)))) =
      ⟨false, []⟩ := by
    intro r hr
    cases hr with
    | none => rfl
    | one pc => cases pc <;> cases connected <;> rfl
  simp only [List.replicate_succ, List.replicate_zero, List.cons_append, List.nil_append,
    run_cons, run_nil, roleStep, hend _ htcp, hend _ hmesh]

theorem nodeTask_ends {pc : TaskPc} (hpc : pc.ending = true) (hnode : s.nodeTask = ⟨true, [pc]⟩) :
    run roleStep s [.nodeTask 0, .nodeTask 0] = { s with nodeTask := ⟨false, []⟩ } := by
  obtain ⟨connected, isRoot, events, nodeTask, tcpClientReadTask, rootMeshReadTask⟩ := s
  obtain rfl : nodeTask = ⟨true, [pc]⟩ := hnode
  cases pc <;> first | rfl | cases hpc

/-- A connected node whose only task is ending may be left without one. -/
theorem ending_fails (htcp : OneHandled s.tcpClientReadTask) (hmesh : OneHandled s.rootMeshReadTask)
    (hconnected : s.connected = true) (hrole : s.isRoot = false) {pc : TaskPc}
    (hpc : pc.ending = true) (hnode : s.nodeTask = ⟨true, [pc]⟩) :
    ∃ es, ¬ OneTaskPerRole (run roleStep s es) := by
  have hmark : s.nodeTask.mark = true := by rw [hnode]
  have hend : run roleStep { s with events := [] } (List.replicate 5 (.tcpClientReadTask 0) ++
      List.replicate 5 (.rootMeshReadTask 0)) = { s with
        events := []
        tcpClientReadTask := ⟨false, []⟩
        rootMeshReadTask := ⟨false, []⟩ } :=
    rootTasks_end hrole htcp hmesh
  have hnone : run roleStep { s with
        events := []
        tcpClientReadTask := ⟨false, []⟩
        rootMeshReadTask := ⟨false, []⟩ } [.nodeTask 0, .nodeTask 0] =
      { s with
        events := []
        nodeTask := ⟨false, []⟩
        tcpClientReadTask := ⟨false, []⟩
        rootMeshReadTask := ⟨false, []⟩ } := nodeTask_ends hpc hnode
  refine ⟨List.replicate s.events.length .handle ++ ((List.replicate 5 (.tcpClientReadTask 0) ++
    List.replicate 5 (.rootMeshReadTask 0)) ++ [.nodeTask 0, .nodeTask 0]), fun hone => ?_⟩
  rw [run_append, run_append, handle_all s hrole hmark, hend, hnone] at hone
  refine hone.running ⟨rfl, ?_, ?_, ?_⟩ hconnected hrole rfl
  all_goals
    intro pc hpc
    cases hpc

/-- An event that is handled against the condition leaves two tasks, or may leave none. -/
theorem gap_fails (h : Served s) {e : RoleEvent} (hgap : ¬ HandledInLoop s e) :
    ∃ es, ¬ OneTaskPerRole (run roleStep (roleStep s e) es) := by
  cases e with
  | handle =>
    rw [HandledInLoop] at hgap
    push Not at hgap
    obtain ⟨hhead, hrole, hgap⟩ := hgap
    obtain ⟨events, hevents⟩ := List.head?_eq_some_iff.mp hhead
    obtain ⟨connected, isRoot, pending, nodeTask, tcpClientReadTask, rootMeshReadTask⟩ := s
    obtain rfl : pending = .mwifiParentConnected :: events := hevents
    obtain rfl : isRoot = false := hrole
    have hnode : OneMarked nodeTask := h.nodeTask
    cases hnode with
    | none =>
      obtain ⟨-, pc, hmem, -⟩ := hgap List.not_mem_nil
      cases hmem
    | created =>
      refine ⟨[], fun hone => ?_⟩
      have htwo : [TaskPc.created, TaskPc.created].length ≤ 1 := hone.nodeTask
      exact absurd htwo (by decide)
    | started pc hpc =>
      have hcreated : .created ∉ [pc] := fun hmem => hpc (List.mem_singleton.mp hmem).symm
      obtain ⟨hconnected, pc', hmem, hending⟩ := hgap hcreated
      obtain rfl := List.mem_singleton.mp hmem
      exact ending_fails h.tcpClientReadTask h.rootMeshReadTask hconnected rfl
        (by simpa using hending) rfl
  | _ => exact absurd trivial hgap

/-- A run up to an event against the condition can go on so that what is wanted is missed. -/
theorem gap_fails_run (es : List RoleEvent) (hloop : Along roleStep HandledInLoop .boot es)
    {e : RoleEvent} (hgap : ¬ HandledInLoop (run roleStep .boot es) e) :
    ∃ fs, ¬ Through roleStep OneTaskPerRole .boot (es ++ e :: fs) := by
  have hserved : Served (run roleStep .boot es) := run_invariant_along step_served boot_served hloop
  obtain ⟨fs, hfails⟩ := gap_fails hserved hgap
  refine ⟨fs, fun hone => hfails ?_⟩
  have hlast := hone.last
  rwa [run_append, run_cons] at hlast

end Gaps

/-- Two connections that are handled before the task of the first has started. -/
def connectedTwice : List RoleEvent :=
  [.connect false, .disconnect, .connect false, .handle, .handle, .handle]

theorem second_node_task : ¬ ∀ es : List RoleEvent, Through roleStep OneTaskPerRole .boot es := by
  intro h
  have hone := (h connectedTwice).last.nodeTask
  exact absurd hone (by decide)

/-- A connection that is handled when the loop of the task has been left and the mark is set. -/
def connectedAtExit : List RoleEvent :=
  [.connect false, .handle, .nodeTask 0, .disconnect, .nodeTask 0, .connect false, .handle,
    .handle, .nodeTask 0, .nodeTask 0]

theorem no_node_task : ¬ OneTaskPerRole (run roleStep .boot connectedAtExit) := by
  intro h
  refine h.running ⟨rfl, ?_, ?_, ?_⟩ rfl rfl rfl
  all_goals
    intro pc hpc
    cases hpc

end EspMesh
