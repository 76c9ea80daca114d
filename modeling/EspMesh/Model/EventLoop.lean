import Mathlib.Data.Nat.Notation

/-! # `event_loop_cb`: a task for the role of the device

The events of the mesh are taken one by one from a queue; the tasks that they create take their
steps in between. What the tasks do in their loops is in the models of the tasks.
-/

namespace EspMesh
set_option autoImplicit false

/-- The events that `event_loop_cb` tells apart. -/
inductive MdfEvent
  | mwifiStarted
  | mwifiParentConnected
  | mwifiParentDisconnected
  | mwifiRoutingTableAdd
  | mwifiRoutingTableRemove
  | mwifiRootGotIp
  | mupgradeStarted
  | mupgradeStatus (ctx : ℕ)
  deriving DecidableEq

/-! ## The life of a task -/

/-- Where a live task is: created and not yet started, in front of the one or the other test of
its loop, or on the way out behind a test that has failed. -/
inductive TaskPc
  | created
  | isConnected
  | getLayer
  | leaving
  | exit
  deriving DecidableEq

def TaskPc.inLoop : TaskPc → Bool
  | .isConnected | .getLayer => true
  | _ => false

def TaskPc.ending : TaskPc → Bool
  | .leaving | .exit => true
  | _ => false

/-- The live tasks of a function and the mark that stands for them: `bTaskRuning`, or whether a
handle is set. -/
structure RoleTasks where
  mark : Bool
  tasks : List TaskPc
  deriving DecidableEq

/-- `xTaskCreatePinnedToCore`, which sets a handle if it is given one. -/
def RoleTasks.create (handle : Bool) (r : RoleTasks) : RoleTasks where
  mark := r.mark || handle
  tasks := r.tasks ++ [.created]

/-- The next step of task `i`. A task with `ownMark` marks itself; every one takes the mark away
at its end. -/
def RoleTasks.turn (ownMark connected inRole : Bool) (i : ℕ) (r : RoleTasks) : RoleTasks :=
  match r.tasks[i]? with
  | none => r
  | some .created => ⟨r.mark || ownMark, r.tasks.set i .isConnected⟩
  | some .isConnected =>
    { r with tasks := r.tasks.set i (if connected then .getLayer else .leaving) }
  | some .getLayer => { r with tasks := r.tasks.set i (if inRole then .isConnected else .leaving) }
  | some .leaving => { r with tasks := r.tasks.set i .exit }
  | some .exit => ⟨false, r.tasks.eraseIdx i⟩

/-! ## The device -/

/-- `mwifi_is_connected`, whether the layer is that of the root, the events that are still to be
handled and the tasks. -/
structure RoleState where
  connected : Bool
  isRoot : Bool
  events : List MdfEvent
  nodeTask : RoleTasks
  tcpClientReadTask : RoleTasks
  rootMeshReadTask : RoleTasks

def RoleState.boot : RoleState := ⟨false, false, [], ⟨false, []⟩, ⟨false, []⟩, ⟨false, []⟩⟩

def eventLoopCb (s : RoleState) : MdfEvent → RoleState
  | .mwifiParentConnected =>
    if !s.isRoot then
      if s.nodeTask.mark = false then { s with nodeTask := s.nodeTask.create false } else s
    else s
  | .mwifiRootGotIp =>
    if s.isRoot then
      { s with
        tcpClientReadTask :=
          if !s.tcpClientReadTask.mark then s.tcpClientReadTask.create true
          else s.tcpClientReadTask
        rootMeshReadTask :=
          if !s.rootMeshReadTask.mark then s.rootMeshReadTask.create true
          else s.rootMeshReadTask }
    else s
  | _ => s

/-- The mesh connects the device, as the root or not, or loses its parent, and says so; it may
post other events at any time. -/
inductive RoleEvent
  | connect (isRoot : Bool)
  | disconnect
  | post (event : MdfEvent)
  | handle
  | nodeTask (i : ℕ)
  | tcpClientReadTask (i : ℕ)
  | rootMeshReadTask (i : ℕ)

def roleStep (s : RoleState) : RoleEvent → RoleState
  | .connect isRoot =>
    { s with
      connected := true
      isRoot := isRoot
      events := s.events ++ [.mwifiParentConnected] }
  | .disconnect =>
    { s with connected := false, events := s.events ++ [.mwifiParentDisconnected] }
  | .post event => { s with events := s.events ++ [event] }
  | .handle =>
    match s.events with
    | [] => s
    | event :: events => eventLoopCb { s with events := events } event
  | .nodeTask i => { s with nodeTask := s.nodeTask.turn true s.connected (!s.isRoot) i }
  | .tcpClientReadTask i =>
    { s with tcpClientReadTask := s.tcpClientReadTask.turn false s.connected s.isRoot i }
  | .rootMeshReadTask i =>
    { s with rootMeshReadTask := s.rootMeshReadTask.turn false s.connected s.isRoot i }

end EspMesh
