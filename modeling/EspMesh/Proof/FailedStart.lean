import EspMesh.Library.StepRuns
import EspMesh.Model.MupgradeNode

/-! # A failed start of a firmware

`mupgrade_status` stores the firmware in its record in front of the steps that may fail, and knows
a firmware by the record alone. A start that has failed is therefore taken for one that has not,
until another firmware is asked for.
-/

namespace EspMesh
set_option autoImplicit false
open ByteMem StepRuns

/-! ## Starts -/

/-- What the record and a request know a firmware by. -/
abbrev Firmware := Bytes 32 × ℕ

def MupgradeStatus.firmware (s : MupgradeStatus) : Firmware := (s.name, s.totalSize)

/-- What the steps of a start come to. -/
def StatusEnv.outcome (e : StatusEnv) : MdfErr :=
  if e.running.isNone || e.update.isNone then .firmwarePartition
  else if e.otaBegin.isSome then espErr e.otaBegin
  else espErr e.infoSave

/-- The starts of a device, the latest first, and whether they succeeded. -/
abbrev Starts := List (Firmware × Bool)

def Starts.last : Starts → Firmware → Option Bool
  | [], _ => none
  | (f', ok) :: l, f => if f' = f then some ok else Starts.last l f

/-- A record that comes from flash is that of a start before the reset. -/
def noteLoad (l : Starts) (n : UpgradeNode) (loaded : Bool) : Starts :=
  match n.gUpgradeConfig, n.info, loaded with
  | none, some g, true => (g.status.firmware, true) :: l
  | _, _, _ => l

/-- A device that is reset behind a packet has to start again. -/
def noteStart (l : Starts) (n : UpgradeNode) : NodeMessage → Starts
  | .status e status =>
    let l := noteLoad l n e.loaded
    if (n.config e.loaded).status.firmware = status.firmware then l
    else (status.firmware, e.outcome == .ok) :: l
  | .data e packet => if (mupgradeWrite e packet n).2.2.isNone then [] else noteLoad l n e.loaded

/-- A request as the root makes it, which never carries `MDF_ERR_MUPGRADE_STOP`, to a device that
is not the root. -/
def ToNode : NodeMessage → Prop
  | .status e status => e.isRoot = false ∧ status.errorCode ≠ .stop
  | .data _ _ => True

/-- The steps of a start are taken, and the answer has their outcome. -/
structure StartsAgain (e : StatusEnv) (status : MupgradeStatus) (calls : List NodeCall) : Prop where
  begins : ∀ p, e.running.isSome = true → e.update = some p →
    .otaBegin p status.totalSize ∈ calls
  answers : ∃ answer withProgress, calls.getLast? = some (.mwifiWrite answer withProgress) ∧
    answer.errorCode = e.outcome

/-- A request behind a failed start of its firmware starts it again, and a packet is written only
behind a start that has succeeded. -/
def StartsKept (w : UpgradeNode × Starts) (msg : NodeMessage) : Prop :=
  match msg with
  | .status e status => w.2.last status.firmware = some false →
    StartsAgain e status (mupgradeHandle w.1 msg).2.1
  | .data e _ => ∀ p offset size, .partitionWrite p offset size ∈ (mupgradeHandle w.1 msg).2.1 →
    ∃ g, w.1.record e.loaded = some g ∧
      (noteLoad w.2 w.1 e.loaded).head? = some (g.status.firmware, true)

/-! ## The record -/

/-- The message is not one that only a successful start would make right: a request for the
firmware on record whose start failed, or a packet to be written behind no successful start. -/
def RecordStarted (w : UpgradeNode × Starts) : NodeMessage → Prop
  | .status e status => (w.1.config e.loaded).status.firmware = status.firmware →
    w.2.last status.firmware ≠ some false
  | .data e packet => ∀ g, w.1.record e.loaded = some g →
    (∃ f, (noteLoad w.2 w.1 e.loaded).head? = some (f, true)) ∨ g.refuses packet

/-- The latest start is that of the firmware on record. -/
structure StartsNoted (w : UpgradeNode × Starts) : Prop where
  empty : w.1.gUpgradeConfig = none → w.2 = []
  latest : ∀ g, w.1.gUpgradeConfig = some g → ∀ f ok, w.2.head? = some (f, ok) →
    g.status.firmware = f

theorem mupgradeWrite_some {e : WriteEnv} {n : UpgradeNode} {g : MupgradeConfig}
    (h : n.record e.loaded = some g) (packet : MupgradePacket) :
    mupgradeWrite e packet n = writePacket e packet g n := by
  obtain ⟨config, _, _, info, _⟩ := n
  obtain ⟨loaded, _, _, _, _, _, _⟩ := e
  cases config with
  | some g =>
    cases h
    rfl
  | none =>
    cases info <;> cases loaded <;> cases h
    rfl

theorem mupgradeWrite_none {e : WriteEnv} {n : UpgradeNode} (h : n.record e.loaded = none)
    (packet : MupgradePacket) : mupgradeWrite e packet n = (n, [], some .notInit) := by
  obtain ⟨config, _, _, info, _⟩ := n
  obtain ⟨loaded, _, _, _, _, _, _⟩ := e
  cases config with
  | some g => cases h
  | none => cases info <;> cases loaded <;> first | rfl | cases h

@[simp] theorem handle_status_node (n : UpgradeNode) (e : StatusEnv) (status : MupgradeStatus) :
    (mupgradeHandle n (.status e status)).1 = (mupgradeStatus e status n).1 :=
  rfl

@[simp] theorem handle_status_calls (n : UpgradeNode) (e : StatusEnv) (status : MupgradeStatus) :
    (mupgradeHandle n (.status e status)).2.1 = (mupgradeStatus e status n).2.1 :=
  rfl

theorem firmware_eq_iff (s t : MupgradeStatus) :
    s.firmware = t.firmware ↔ s.name = t.name ∧ s.totalSize = t.totalSize :=
  Prod.mk.injEq .. ▸ Iff.rfl

/-! ## A request -/

section Request
variable (e : StatusEnv) {status : MupgradeStatus} {n : UpgradeNode}

/-- The record stays that of the firmware, and the answer has the error of the record. -/
theorem statusExit_spec (ret : MdfErr) (g : MupgradeConfig) (n : UpgradeNode)
    (calls : List NodeCall) : ∃ answer withProgress events,
      (statusExit e ret g n calls).2.1 =
        calls ++ events ++ [.mwifiWrite answer withProgress] ∧
      (∀ call ∈ events, ∃ notice, call = .event notice) ∧
      (statusExit e ret g n calls).1.gUpgradeConfig = some { g with status := answer } ∧
      answer.firmware = g.status.firmware ∧
      answer.errorCode = if g.status.errorCode = .stop then .stop else ret := by
  refine ⟨_, _, _, rfl, fun call hcall => ?_, rfl, rfl, rfl⟩
  split at hcall
  · cases hcall
  · split at hcall
    · exact ⟨_, List.mem_singleton.mp hcall⟩
    · cases hcall

/-- A request for the firmware on record is answered at once. -/
theorem mupgradeStatus_same (h : (n.config e.loaded).status.firmware = status.firmware) :
    mupgradeStatus e status n = statusExit e .ok (n.config e.loaded) n [] :=
  if_pos ((firmware_eq_iff _ _).mp h)

/-- A request for another firmware puts it on record and takes the steps of a start. -/
theorem mupgradeStatus_other (hroot : e.isRoot = false)
    (h : (n.config e.loaded).status.firmware ≠ status.firmware) : ∃ g n' calls,
      mupgradeStatus e status n = statusExit e e.outcome g n' calls ∧
      g.status.firmware = status.firmware ∧ g.status.errorCode = status.errorCode ∧
      ∀ p, e.running.isSome = true → e.update = some p → .otaBegin p status.totalSize ∈ calls := by
  have hother := (firmware_eq_iff _ _).not.mp h
  obtain ⟨_, isRoot, running, update, _, otaBegin, _, _, infoSave, _⟩ := e
  subst hroot
  unfold mupgradeStatus
  dsimp only at hother ⊢
  rw [if_neg hother]
  cases running with
  | none => exact ⟨_, _, _, rfl, rfl, rfl, fun _ h => by cases h⟩
  | some r =>
    cases update with
    | none => exact ⟨_, _, _, rfl, rfl, rfl, fun _ _ h => by cases h⟩
    | some p =>
      have hmem : ∀ rest q, some p = some q → .otaBegin q status.totalSize ∈
          NodeCall.otaBegin p status.totalSize :: rest := by
        intro rest q hq
        rw [Option.some.inj hq]
        exact List.mem_cons_self ..
      cases otaBegin with
      | some code => exact ⟨_, _, _, rfl, rfl, rfl, fun q _ hq => hmem _ q hq⟩
      | none =>
        cases infoSave with
        | some code => exact ⟨_, _, _, rfl, rfl, rfl, fun q _ hq => hmem _ q hq⟩
        | none => exact ⟨_, _, _, rfl, rfl, rfl, fun q _ hq => hmem _ q hq⟩

end Request

/-! ## A packet -/

section Packet
variable {e : WriteEnv} {packet : MupgradePacket} {g : MupgradeConfig} {n : UpgradeNode}

/-- A packet leaves the firmware on record, or the device is reset. -/
theorem writePacket_firmware (e : WriteEnv) (packet : MupgradePacket) (g : MupgradeConfig)
    (n : UpgradeNode) :
    ((writePacket e packet g n).2.2 = none ∧
        (writePacket e packet g n).1.gUpgradeConfig = none) ∨
      (∃ ret, (writePacket e packet g n).2.2 = some ret) ∧
        ∃ g', (writePacket e packet g n).1.gUpgradeConfig = some g' ∧
          g'.status.firmware = g.status.firmware := by
  unfold writePacket
  split
  · exact .inr ⟨⟨_, rfl⟩, _, rfl, rfl⟩
  split
  · exact .inr ⟨⟨_, rfl⟩, _, rfl, rfl⟩
  split
  · exact .inr ⟨⟨_, rfl⟩, _, rfl, rfl⟩
  split
  · exact .inr ⟨⟨_, rfl⟩, _, rfl, rfl⟩
  unfold writeDone
  dsimp only
  split
  · exact .inl ⟨rfl, rfl⟩
  split
  · unfold writeComplete
    dsimp only
    split
    · exact .inr ⟨⟨_, rfl⟩, _, rfl, rfl⟩
    · exact .inr ⟨⟨_, rfl⟩, _, rfl, rfl⟩
  · exact .inr ⟨⟨_, rfl⟩, _, rfl, rfl⟩

theorem writePacket_refused (h : g.refuses packet) (p : Option ℕ) (offset size : ℕ) :
    .partitionWrite p offset size ∉ (writePacket e packet g n).2.1 := by
  unfold writePacket
  split
  · simp
  · rename_i hstop
    split
    · simp
    · rename_i hrange
      rw [if_pos ((h.resolve_left hstop).resolve_left hrange)]
      simp

theorem writeComplete_calls (e : WriteEnv) (g : MupgradeConfig) (n : UpgradeNode)
    (calls : List NodeCall) : ∃ more, (writeComplete e g n calls).2.1 = calls ++ more := by
  unfold writeComplete
  dsimp only
  split
  · exact ⟨_, rfl⟩
  · exact ⟨_, List.append_assoc ..⟩

theorem writeDone_calls (e : WriteEnv) (packet : MupgradePacket) (g : MupgradeConfig)
    (n : UpgradeNode) (calls : List NodeCall) :
    ∃ more, (writeDone e packet g n calls).2.1 = calls ++ more := by
  unfold writeDone
  dsimp only
  split
  · exact ⟨[], (List.append_nil _).symm⟩
  split
  · obtain ⟨more, hmore⟩ := writeComplete_calls e _ _ _
    exact ⟨_, hmore.trans (List.append_assoc ..)⟩
  · exact ⟨_, rfl⟩

/-- A packet that is not refused is written. -/
theorem writePacket_written (h : ¬ g.refuses packet) :
    .partitionWrite g.partition (packet.seq * mupgradePacketMaxSize) packet.size ∈
      (writePacket e packet g n).2.1 := by
  obtain ⟨hstop, hrest⟩ := not_or.mp h
  obtain ⟨hrange, hbit⟩ := not_or.mp hrest
  rw [writePacket, if_neg hstop, if_neg hrange, if_neg hbit]
  dsimp only
  split
  · exact List.mem_singleton_self _
  · obtain ⟨more, hmore⟩ := writeDone_calls e packet g _ [_]
    rw [hmore]
    exact List.mem_cons_self ..

end Packet

/-! ## One message -/

section Message
variable {n : UpgradeNode} {l : Starts} {loaded : Bool}

theorem config_of_record {g : MupgradeConfig} (h : n.record loaded = some g) :
    n.config loaded = g := by
  obtain ⟨config, _, _, info, _⟩ := n
  cases config with
  | some g => exact Option.some.inj h
  | none => cases info <;> cases loaded <;> first | exact Option.some.inj h | cases h

theorem record_of_config {g : MupgradeConfig} (h : n.gUpgradeConfig = some g) (loaded : Bool) :
    n.record loaded = some g := by
  simp [UpgradeNode.record, h]

theorem noteLoad_of_no_record (h : n.record loaded = none) (l : Starts) :
    n.gUpgradeConfig = none ∧ noteLoad l n loaded = l := by
  obtain ⟨config, _, _, info, _⟩ := n
  cases config with
  | some g => cases h
  | none => cases info <;> cases loaded <;> first | exact ⟨rfl, rfl⟩ | cases h

theorem noteLoad_latest (h : StartsNoted (n, l)) {f : Firmware} {ok : Bool}
    (hhead : (noteLoad l n loaded).head? = some (f, ok)) :
    (n.config loaded).status.firmware = f := by
  cases hrecord : n.record loaded with
  | none =>
    obtain ⟨hnone, hsame⟩ := noteLoad_of_no_record hrecord l
    have hempty : l = [] := h.empty hnone
    rw [hsame, hempty] at hhead
    cases hhead
  | some g =>
    have hlatest := h.latest
    obtain ⟨config, _, _, info, _⟩ := n
    cases config with
    | some g => exact hlatest g rfl f ok hhead
    | none =>
      cases info <;> cases loaded <;> cases hrecord
      exact congrArg Prod.fst (Option.some.inj hhead)

/-- After a request its firmware is on record. -/
theorem status_record {e : StatusEnv} {status : MupgradeStatus}
    (hmsg : ToNode (.status e status)) : ∃ g,
      (nodeStep n (.status e status)).gUpgradeConfig = some g ∧
      g.status.firmware = status.firmware := by
  rw [nodeStep, handle_status_node]
  by_cases hsame : (n.config e.loaded).status.firmware = status.firmware
  · obtain ⟨answer, _, _, -, -, hconfig, hfirmware, -⟩ :=
      statusExit_spec e .ok (n.config e.loaded) n []
    rw [mupgradeStatus_same e hsame]
    exact ⟨_, hconfig, hfirmware.trans hsame⟩
  · obtain ⟨g', n', calls, hother, hfw, -, -⟩ := mupgradeStatus_other e hmsg.1 hsame
    obtain ⟨answer, _, _, -, -, hconfig, hfirmware, -⟩ := statusExit_spec e e.outcome g' n' calls
    rw [hother]
    exact ⟨_, hconfig, hfirmware.trans hfw⟩

theorem StartsNoted.of_record {n' : UpgradeNode} {l' : Starts} {g : MupgradeConfig}
    (hg : n'.gUpgradeConfig = some g)
    (h : ∀ f ok, l'.head? = some (f, ok) → g.status.firmware = f) : StartsNoted (n', l') := by
  refine ⟨fun hnone => ?_, fun g' hg' f ok hhead => ?_⟩
  · rw [hg] at hnone
    cases hnone
  · rw [← Option.some.inj (hg.symm.trans hg')]
    exact h f ok hhead

theorem step_noted (w : UpgradeNode × Starts) (msg : NodeMessage) (h : StartsNoted w)
    (hmsg : ToNode msg) : StartsNoted (observe nodeStep noteStart w msg) := by
  obtain ⟨n, l⟩ := w
  cases msg with
  | status e status =>
    obtain ⟨g, hg, hfirmware⟩ := status_record (n := n) hmsg
    refine .of_record hg fun f ok hhead => ?_
    rw [hfirmware]
    simp only [noteStart] at hhead
    split at hhead
    · rename_i hsame
      rw [← hsame]
      exact noteLoad_latest h hhead
    · rw [List.head?_cons] at hhead
      exact (Prod.mk.inj (Option.some.inj hhead)).1
  | data e packet =>
    cases hrecord : n.record e.loaded with
    | none =>
      obtain ⟨-, hsame⟩ := noteLoad_of_no_record hrecord l
      rw [observe, noteStart, nodeStep, mupgradeHandle, mupgradeWrite_none hrecord, hsame]
      exact h
    | some g₀ =>
      have hfirmware := writePacket_firmware e packet g₀ n
      rw [← mupgradeWrite_some hrecord] at hfirmware
      rw [observe, noteStart, nodeStep, mupgradeHandle]
      rcases hfirmware with ⟨hreset, hnone⟩ | ⟨⟨ret, hret⟩, g, hg, hfirmware⟩
      · rw [hreset]
        exact ⟨fun _ => rfl, fun g hg => absurd (hnone.symm.trans hg) (by simp)⟩
      · rw [hret]
        refine .of_record hg fun f ok hhead => ?_
        rw [hfirmware, ← config_of_record hrecord]
        exact noteLoad_latest h hhead

theorem outcome_ok {e : StatusEnv} (h : e.outcome = .ok) :
    e.running.isSome = true ∧ ∃ p, e.update = some p := by
  unfold StatusEnv.outcome at h
  split at h
  · cases h
  · rename_i hfound
    rw [Bool.or_eq_true, not_or, Option.isNone_iff_eq_none, Option.isNone_iff_eq_none] at hfound
    exact ⟨Option.isSome_iff_ne_none.mpr hfound.1, Option.ne_none_iff_exists'.mp hfound.2⟩

theorem outcome_ne_stop (e : StatusEnv) : e.outcome ≠ .stop := by
  have hcode : ∀ code, espErr code ≠ .stop := by
    intro code
    cases code <;> exact MdfErr.noConfusion
  unfold StatusEnv.outcome
  split
  · exact MdfErr.noConfusion
  · split <;> exact hcode _

/-- An answer without a start does not have the outcome of one. -/
theorem same_not_again {e : StatusEnv} {status : MupgradeStatus}
    (h : (n.config e.loaded).status.firmware = status.firmware) :
    ¬ StartsAgain e status (mupgradeHandle n (.status e status)).2.1 := by
  rintro ⟨hbegins, last, withProgress, hlast, herror⟩
  obtain ⟨answer, _, events, hcalls, hevents, -, -, hcode⟩ :=
    statusExit_spec e .ok (n.config e.loaded) n []
  rw [handle_status_calls, mupgradeStatus_same e h, hcalls, List.nil_append] at hbegins hlast
  rw [List.getLast?_concat] at hlast
  obtain rfl : answer = last := (NodeCall.mwifiWrite.inj (Option.some.inj hlast)).1
  rw [hcode] at herror
  split at herror
  · exact outcome_ne_stop e herror.symm
  · obtain ⟨hrunning, p, hupdate⟩ := outcome_ok herror.symm
    rcases List.mem_append.mp (hbegins p hrunning hupdate) with hmem | hmem
    · obtain ⟨notice, hnotice⟩ := hevents _ hmem
      cases hnotice
    · simp at hmem

theorem other_again {e : StatusEnv} {status : MupgradeStatus} (hmsg : ToNode (.status e status))
    (h : (n.config e.loaded).status.firmware ≠ status.firmware) :
    StartsAgain e status (mupgradeHandle n (.status e status)).2.1 := by
  obtain ⟨g', n', calls, hother, -, herror, hbegins⟩ := mupgradeStatus_other e hmsg.1 h
  obtain ⟨answer, withProgress, events, hcalls, -, -, -, hcode⟩ :=
    statusExit_spec e e.outcome g' n' calls
  rw [handle_status_calls, hother, hcalls]
  refine ⟨fun p hrunning hupdate => ?_, answer, withProgress, List.getLast?_concat .., ?_⟩
  · exact List.mem_append_left _ (List.mem_append_left _ (hbegins p hrunning hupdate))
  · rw [hcode, herror, if_neg hmsg.2]

theorem kept_iff (w : UpgradeNode × Starts) (msg : NodeMessage) (h : StartsNoted w)
    (hmsg : ToNode msg) : StartsKept w msg ↔ RecordStarted w msg := by
  obtain ⟨n, l⟩ := w
  cases msg with
  | status e status =>
    constructor
    · intro hkept hsame hlast
      exact same_not_again hsame (hkept hlast)
    · intro hstarted hlast
      exact other_again hmsg fun hsame => hstarted hsame hlast
  | data e packet =>
    constructor
    · intro hkept g hrecord
      by_contra hno
      obtain ⟨hstart, hwritten⟩ := not_or.mp hno
      have hcall := writePacket_written (e := e) (n := n) hwritten
      rw [← mupgradeWrite_some hrecord] at hcall
      obtain ⟨g', -, hhead⟩ := hkept _ _ _ hcall
      exact hstart ⟨_, hhead⟩
    · intro hstarted p offset size hcall
      rw [mupgradeHandle] at hcall
      cases hrecord : n.record e.loaded with
      | none =>
        rw [mupgradeWrite_none hrecord] at hcall
        cases hcall
      | some g =>
        rw [mupgradeWrite_some hrecord] at hcall
        rcases hstarted g hrecord with ⟨f, hhead⟩ | hrefused
        · refine ⟨g, rfl, ?_⟩
          rw [← config_of_record hrecord, noteLoad_latest h hhead]
          exact hhead
        · exact absurd hcall (writePacket_refused hrefused p offset size)

end Message

/-! ## Every run of a device -/

theorem boot_noted (info : Option MupgradeConfig) (flash : ℕ → NorFlash.Flash) :
    StartsNoted (.boot info flash, []) :=
  ⟨fun _ => rfl, fun _ h => by cases h⟩

/-- **A failed start.** Whatever a device is sent from a reset on, a failed start is made again
and no packet is written behind it, exactly when no request and no packet meets the record of a
start that has failed. -/
theorem failed_start_made_again (info : Option MupgradeConfig) (flash : ℕ → NorFlash.Flash)
    (msgs : List NodeMessage) (hmsgs : ∀ msg ∈ msgs, ToNode msg) :
    Along (observe nodeStep noteStart) StartsKept (.boot info flash, []) msgs ↔
      Along (observe nodeStep noteStart) RecordStarted (.boot info flash, []) msgs := by
  have hnode : Along (observe nodeStep noteStart) (fun _ msg => ToNode msg)
      (.boot info flash, []) msgs := along_event.mpr hmsgs
  exact along_congr step_noted kept_iff (boot_noted info flash) hnode

/-- What the calls return to a device other than the root when `esp_ota_begin` returns `ret`. -/
def startEnv (ret : Option ℕ) : StatusEnv where
  loaded := false
  isRoot := false
  running := some 0
  update := some 1
  setBoot := none
  otaBegin := ret
  handle := 0
  erased := fun _ => NorFlash.erased
  infoSave := none
  mwifiWrite := none

def requestOf (b : UInt8) : MupgradeStatus := ⟨2, Bytes.const 32 b, .ok, 2048, 0⟩

/-- Two requests for one firmware, the first of which fails. -/
def failedThenAsked : List NodeMessage :=
  [.status (startEnv (some 1)) (requestOf 1), .status (startEnv none) (requestOf 1)]

/-- Another firmware in between makes the second request a start. -/
theorem failed_start_made_again_other :
    Along (observe nodeStep noteStart) StartsKept (.boot none fun _ => fun _ => 0, [])
      [.status (startEnv (some 1)) (requestOf 1), .status (startEnv none) (requestOf 2),
        .status (startEnv none) (requestOf 1)] := by
  refine (failed_start_made_again none _ _ ?_).mpr ⟨?_, ?_, ?_, trivial⟩
  · intro msg hmsg
    simp only [List.mem_cons, List.not_mem_nil, or_false] at hmsg
    rcases hmsg with rfl | rfl | rfl <;> exact ⟨rfl, MdfErr.noConfusion⟩
  · exact fun h => absurd h (by decide)
  · exact fun h => absurd h (by decide)
  · exact fun h => absurd h (by decide)

/-- The second request is answered as if the start had succeeded. -/
theorem failed_start_answered_ok :
    ¬ ∀ (info : Option MupgradeConfig) (flash : ℕ → NorFlash.Flash) (msgs : List NodeMessage),
      (∀ msg ∈ msgs, ToNode msg) →
        Along (observe nodeStep noteStart) StartsKept (.boot info flash, []) msgs := by
  intro h
  have hnode : ∀ msg ∈ failedThenAsked, ToNode msg := by
    intro msg hmsg
    simp only [failedThenAsked, List.mem_cons, List.not_mem_nil, or_false] at hmsg
    rcases hmsg with rfl | rfl <;> exact ⟨rfl, MdfErr.noConfusion⟩
  have hagain := (h none (fun _ => fun _ => 0) failedThenAsked hnode).2.1 rfl
  refine same_not_again ?_ hagain
  rfl

end EspMesh
