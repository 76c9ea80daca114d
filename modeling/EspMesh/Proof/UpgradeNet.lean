import EspMesh.Proof.FirmwareSuccess
import EspMesh.Proof.UpgradeCourse
import EspMesh.Proof.UpgradeReports

/-! # An upgrade of one device in the mesh

Whatever the other devices do, and however the messages of both sides are lost, repeated and
reordered: a device counts as upgraded only if it has the whole firmware, a packet it lacks is not
passed over, and a round whose packets all get to it completes it.
-/

namespace EspMesh
set_option autoImplicit false
set_option maxRecDepth 20000
open ByteMem NorFlash StepRuns

/-! ## What is said of a device -/

/-- A request can begin the firmware if that is not on record, and a packet that was sent to all
devices finds no record of another firmware. -/
def Welcome (c : UpgradeCall) (n : UpgradeNode) (s : StatusEnv) (e : WriteEnv) :
    MupgradeWrite → Prop
  | .status _ => ¬ ((n.config s.loaded).status.name = c.name ∧
      (n.config s.loaded).status.totalSize = c.totalSize) → s.Begins c.toSendCall
  | .packet _ _ _ _ => (c.addrIsAny || c.addrIsBroadcast) = true →
    ∀ g, n.record e.loaded = some g → g.status.name = c.name ∧ g.status.totalSize = c.totalSize

/-- What gets to device `a` is welcome. -/
def Regular (c : UpgradeCall) (a : Mac) (net : UpgradeNet) : NetEvent → Prop
  | .write b i s e _ => b = a → ∀ w, net.session.send.writes[i]? = some w →
    Welcome c (net.nodes a) s e w
  | _ => True

/-- The packet that device `a`, which has not stopped, writes in this step. -/
def UpgradeNet.takes (c : SendCall) (a : Mac) (net : UpgradeNet) : NetEvent → Option ℕ
  | .write b i _ e _ =>
    match net.session.send.writes[i]?, (net.nodes a).gUpgradeConfig with
    | some (.packet dests seq size data), some g =>
      if b = a ∧ (MupgradeWrite.packet dests seq size data).getsTo c a = true ∧
        e.partitionWrite = none ∧ g.status.errorCode ≠ .stop then some seq else none
    | _, _ => none
  | _ => none

/-- The writes as they were when the round began, and the packets that the device has taken. -/
structure DeviceNotes where
  base : List MupgradeWrite
  taken : List ℕ

def noteDevice (c : SendCall) (a : Mac) (r : DeviceNotes) (net : UpgradeNet) (e : NetEvent) :
    DeviceNotes where
  base := match e with
    | .next => if net.session.send.pc = .round then net.session.send.writes else r.base
    | _ => r.base
  taken := (net.takes c a e).toList ++ r.taken

/-- The root has had no word from the device but that it has stopped. -/
structure Absent (c : UpgradeCall) (a : Mac) (net : UpgradeNet) : Prop where
  node : Elsewhere c.toSendCall c.name (net.nodes a)
  requested : a ∉ net.session.send.requestedAddr
  packets : (c.addrIsAny || c.addrIsBroadcast) = false →
    ∀ w ∈ net.session.send.writes, w.isPacket = true → a ∉ w.dests
  reports : ∀ q ∈ net.session.queue ++ net.reports, q.srcAddr = a →
    q.errorCode = c.mdfErrMupgradeStop ∧ q.writtenSize = 0 ∧ q.writtenSize ≠ q.totalSize
  successed : a ∉ net.session.send.successedAddr

structure Present (c : UpgradeCall) (a : Mac) (p : ℕ) (net : UpgradeNet) : Prop where
  node : Taking c.toSendCall c.name p (net.nodes a)
  reports : ∀ q ∈ net.session.queue ++ net.reports, q.srcAddr = a →
    Truthful c.toSendCall p (net.nodes a) q
  successed : a ∈ net.session.send.successedAddr →
    ∀ i < c.packetNum, HasPacket c.toSendCall p (net.nodes a) i

/-- The state of `mupgrade_firmware_send` is one of its own. -/
def Sending (c : SendCall) (s : Send) : Prop :=
  ∃ progressArray packetData s₀ es, mupgradeFirmwareSend c progressArray packetData = some s₀ ∧
    s = run (Send.step c) s₀ es

/-- What device `a` has of the firmware, with `Has` for the packets. -/
inductive Device (c : UpgradeCall) (a : Mac) (net : UpgradeNet) (r : DeviceNotes) :
    (ℕ → Prop) → Prop
  | absent (h : Absent c a net) (htaken : r.taken = []) : Device c a net r fun _ => False
  | present (p : ℕ) (h : Present c a p net)
    (htaken : ∀ i ∈ r.taken, HasPacket c.toSendCall p (net.nodes a) i) :
    Device c a net r (HasPacket c.toSendCall p (net.nodes a))

structure NetInv (c : UpgradeCall) (a : Mac) (w : UpgradeNet × DeviceNotes) : Prop where
  sending : Sending c.toSendCall w.1.session.send
  device : ∃ Has, Device c a w.1 w.2 Has ∧
    Course c.toSendCall a Has w.2.base w.1.session.send

/-! ## Steps of the root -/

section Root
variable {c : UpgradeCall} {a : Mac} {net : UpgradeNet} {r : DeviceNotes}

/-- A step of the root is none of the function, or one of it that takes what waits. -/
theorem session_send (c : FirmwareCall) (s : Session) (e : SessionEvent) :
    ((s.step c e).send = s.send ∧ e ≠ .next) ∨
      ∃ e', (s.step c e).send = s.send.step c.toSendCall e' ∧
      (e' = .next ↔ e = .next) ∧
      ∀ q, e' = .receive (some q) → ∃ f ∈ s.queue, f.toStatusMessage = q := by
  cases e with
  | handle msg =>
    left
    refine ⟨?_, SessionEvent.noConfusion⟩
    simp only [Session.step, mupgradeRootHandle]
    by_cases hrun : s.send.gMupgradeSendRunningFlag = true
    · by_cases hroom : s.queue.length < 3 <;> simp [hrun, hroom]
    · simp [hrun]
  | receive =>
    simp only [Session.step]
    split
    · refine .inr ⟨.receive (s.queue.head?.map (·.toStatusMessage)), rfl, by simp, fun q hq => ?_⟩
      obtain ⟨f, hf, hfq⟩ := Option.map_eq_some_iff.mp (SendEvent.receive.inj hq)
      exact ⟨f, List.mem_of_mem_head? hf, hfq⟩
    · exact .inl ⟨rfl, SessionEvent.noConfusion⟩
  | flash ok => exact .inr ⟨.flash ok, rfl, by simp, fun q hq => (by cases hq)⟩
  | next => exact .inr ⟨.next, rfl, by simp, fun q hq => (by cases hq)⟩
  | stop => exact .inr ⟨.stop, rfl, by simp, fun q hq => (by cases hq)⟩

theorem Sending.session {c : FirmwareCall} {s : Session} (h : Sending c.toSendCall s.send)
    (e : SessionEvent) : Sending c.toSendCall (s.step c e).send := by
  obtain ⟨progressArray, packetData, s₀, es, hstart, hrun⟩ := h
  rcases session_send c s e with ⟨hsame, -⟩ | ⟨e', hstep, -, -⟩
  · exact ⟨progressArray, packetData, s₀, es, hstart, hsame.trans hrun⟩
  · refine ⟨progressArray, packetData, s₀, es ++ [e'], hstart, ?_⟩
    rw [hstep, hrun, run_append]
    rfl

/-- What waits for the root, or is on its way to it, was so before. -/
theorem step_reports {e : NetEvent} {r : SessionEvent} (hr : net.sessionEvent e = some r)
    {q : FirmwareStatus}
    (hq : q ∈ (net.session.step c.toFirmwareCall r).queue ++ net.reports) :
    q ∈ net.session.queue ++ net.reports := by
  rcases List.mem_append.mp hq with hq | hq
  · rcases step_queue c.toFirmwareCall net.session r hq with hq | rfl
    · exact List.mem_append_left _ hq
    · cases e with
      | report i =>
        obtain ⟨f, hf, hfq⟩ := Option.map_eq_some_iff.mp hr
        cases hfq
        exact List.mem_append_right _ (List.mem_of_getElem? hf)
      | write b i s e behind | nodeStop b e behind => cases hr
      | receive | flash ok | next | stop => cases hr
  · exact List.mem_append_right _ hq

theorem noteDevice_session {e : NetEvent} {r₀ : SessionEvent}
    (hr : net.sessionEvent e = some r₀) : (noteDevice c.toSendCall a r net e).taken = r.taken := by
  cases e with
  | write b i s e behind | nodeStop b e behind => cases hr
  | report i | receive | flash ok | next | stop => rfl

theorem noteDevice_base {e : NetEvent} {r₀ : SessionEvent}
    (hr : net.sessionEvent e = some r₀) {e' : SendEvent} (h : e' = .next ↔ r₀ = .next) :
    (noteDevice c.toSendCall a r net e).base =
      noteRoundWrites r.base net.session.send e' := by
  have hother : e' ≠ .next → noteRoundWrites r.base net.session.send e' = r.base := by
    intro hne
    cases e' with
    | next => exact absurd rfl hne
    | receive msg | flash ok | stop => rfl
  cases e with
  | next =>
    cases hr
    rw [h.mpr rfl]
    rfl
  | report i =>
    obtain ⟨f, -, rfl⟩ := Option.map_eq_some_iff.mp hr
    exact (hother fun hnext => SessionEvent.noConfusion (h.mp hnext)).symm
  | receive | flash ok | stop =>
    cases hr
    exact (hother fun hnext => SessionEvent.noConfusion (h.mp hnext)).symm
  | write b i s e behind | nodeStop b e behind => cases hr

theorem session_course {Has : ℕ → Prop} {e : NetEvent} {r₀ : SessionEvent}
    (hmax : c.packetNum ≤ mupgradePacketMaxNum) (hr : net.sessionEvent e = some r₀)
    (h : Course c.toSendCall a Has r.base net.session.send)
    (hq : ∀ q ∈ net.session.queue, SaysRight c.toSendCall a Has q.toStatusMessage) :
    Course c.toSendCall a Has (noteDevice c.toSendCall a r net e).base
      (net.session.step c.toFirmwareCall r₀).send := by
  rcases session_send c.toFirmwareCall net.session r₀ with ⟨hsame, hnext⟩ | ⟨e', hstep, hnext, hmsg⟩
  · have hbase : (noteDevice c.toSendCall a r net e).base =
        noteRoundWrites r.base net.session.send .stop :=
      noteDevice_base hr ⟨SendEvent.noConfusion, fun h => absurd h hnext⟩
    rw [hsame, hbase]
    exact h
  · rw [hstep, noteDevice_base hr hnext]
    refine step_course hmax h e' fun q hq' => ?_
    obtain ⟨f, hf, rfl⟩ := hmsg q hq'
    exact hq f hf

/-- A device that succeeds has said in a message that waited that all is written. -/
theorem step_successed_of {e : SessionEvent}
    (ha : a ∈ (net.session.step c.toFirmwareCall e).send.successedAddr) :
    a ∈ net.session.send.successedAddr ∨
      ∃ q ∈ net.session.queue, q.srcAddr = a ∧ q.writtenSize = q.totalSize := by
  cases htaken : net.session.taken e with
  | none =>
    rw [session_same _ _ htaken] at ha
    exact .inl ha
  | some q =>
    rw [session_successed _ _ htaken, Send.successedWith] at ha
    split at ha
    · rename_i hcompletes
      rw [List.mem_append, List.mem_singleton] at ha
      refine ha.imp_right fun ha => ⟨q, ?_, ha.symm, completes_size _ _ _ hcompletes⟩
      cases e with
      | receive =>
        simp only [Session.taken] at htaken
        split at htaken
        · exact List.mem_of_mem_head? htaken
        · cases htaken
      | _ => cases htaken
    · exact .inl ha

theorem session_packetDests (h : a ∉ net.session.send.requestedAddr)
    (hexplicit : (c.addrIsAny || c.addrIsBroadcast) = false) :
    a ∉ net.session.send.packetDests c.toSendCall := by
  unfold Send.packetDests
  rw [hexplicit]
  exact h

theorem Absent.session (h : Absent c a net) {e : NetEvent} {r₀ : SessionEvent}
    (hr : net.sessionEvent e = some r₀) :
    Absent c a { net with session := net.session.step c.toFirmwareCall r₀ } := by
  refine ⟨h.node, fun ha => ?_, fun hexplicit w hw hpacket ha => ?_,
    fun q hq => h.reports q (step_reports hr hq), fun ha => ?_⟩
  · rcases session_send c.toFirmwareCall net.session r₀ with ⟨hsame, -⟩ | ⟨e', hstep, -, hmsg⟩
    · exact h.requested (hsame ▸ ha)
    · dsimp only at ha
      rw [hstep] at ha
      rcases step_requested c.toSendCall net.session.send e' ha with ha | ⟨q, rfl, hsrc, hgoes⟩
      · exact h.requested ha
      · obtain ⟨f, hf, rfl⟩ := hmsg q rfl
        exact hgoes (h.reports f (List.mem_append_left _ hf) hsrc).1
  · rcases session_send c.toFirmwareCall net.session r₀ with ⟨hsame, -⟩ | ⟨e', hstep, -, -⟩
    · exact h.packets hexplicit w (hsame ▸ hw) hpacket ha
    · dsimp only at hw
      rw [hstep] at hw
      rcases step_writes c.toSendCall net.session.send e' with hwrites | ⟨w', hwrites, hdests⟩
      · rw [hwrites] at hw
        exact h.packets hexplicit w hw hpacket ha
      · rw [hwrites] at hw
        rcases List.mem_cons.mp hw with rfl | hw
        · rw [hdests hpacket] at ha
          exact session_packetDests h.requested hexplicit ha
        · exact h.packets hexplicit w hw hpacket ha
  · rcases step_successed_of ha with ha | ⟨q, hq, hsrc, hall⟩
    · exact h.successed ha
    · exact (h.reports q (List.mem_append_left _ hq) hsrc).2.2 hall

theorem Present.session {p : ℕ} (h : Present c a p net) {e : NetEvent} {r₀ : SessionEvent}
    (hr : net.sessionEvent e = some r₀) :
    Present c a p { net with session := net.session.step c.toFirmwareCall r₀ } := by
  refine ⟨h.node, fun q hq => h.reports q (step_reports hr hq), fun ha => ?_⟩
  rcases step_successed_of ha with ha | ⟨q, hq, hsrc, hall⟩
  · exact h.successed ha
  · exact (h.reports q (List.mem_append_left _ hq) hsrc).image hall

theorem Present.saysRight {p : ℕ} (h : Present c a p net) {q : FirmwareStatus}
    (hq : q ∈ net.session.queue) :
    SaysRight c.toSendCall a (HasPacket c.toSendCall p (net.nodes a)) q.toStatusMessage := by
  intro hsrc _ hopen i hi hnames
  obtain ⟨hpart, hset⟩ := not_or.mp hnames
  refine (h.reports q (List.mem_append_left _ hq) hsrc).packet hpart hopen i hi ?_
  rw [mupgradeGetBits_eq]
  by_contra hclear
  exact hset ⟨hopen, by simpa using hclear⟩

theorem session_inv (hmax : c.packetNum ≤ mupgradePacketMaxNum) (h : NetInv c a (net, r))
    {e : NetEvent} {r₀ : SessionEvent} (hr : net.sessionEvent e = some r₀) :
    NetInv c a ({ net with session := net.session.step c.toFirmwareCall r₀ },
      noteDevice c.toSendCall a r net e) := by
  obtain ⟨hsending, Has, hdevice, hcourse⟩ := h
  have htaken := noteDevice_session (c := c) (a := a) (r := r) hr
  refine ⟨hsending.session r₀, Has, ?_⟩
  cases hdevice with
  | absent habsent hnone =>
    refine ⟨.absent (habsent.session hr) (htaken.trans hnone), session_course hmax hr hcourse ?_⟩
    intro q hq hsrc hgoes
    exact absurd (habsent.reports q (List.mem_append_left _ hq) hsrc).1 hgoes
  | present p hpresent hhas =>
    exact ⟨.present p (hpresent.session hr) (htaken ▸ hhas),
      session_course hmax hr hcourse fun q hq => hpresent.saysRight hq⟩

end Root

/-! ## Steps of the devices -/

section Nodes
variable {c : UpgradeCall} {a b : Mac} {net : UpgradeNet} {r : DeviceNotes}
variable {behind : ℕ → UInt8} {result : UpgradeNode × List NodeCall × Option MdfErr}

theorem returns_self (h : ReportsOwn result) {q : FirmwareStatus}
    (hq : q ∈ (net.returns c b behind result).session.queue ++
      (net.returns c b behind result).reports)
    (hsrc : q.srcAddr = a) : q ∈ net.session.queue ++ net.reports ∨
      b = a ∧ q ∈ result.2.1.filterMap (reportOf c a behind result.1) := by
  have hmem : q ∈ (net.session.queue ++ net.reports) ++
      result.2.1.filterMap (reportOf c b behind result.1) := by
    rw [List.append_assoc]
    exact hq
  rcases List.mem_append.mp hmem with hmem | hmem
  · exact .inl hmem
  · obtain ⟨g, -, hdescribes⟩ := report_describes h hmem
    cases hdescribes.srcAddr.symm.trans hsrc
    exact .inr ⟨rfl, hmem⟩

/-- Nothing changes about the device when another one takes a step. -/
theorem Device.other {Has : ℕ → Prop} (h : Device c a net r Has) (behind : ℕ → UInt8)
    (hb : b ≠ a) (hreports : ReportsOwn result) :
    ∃ Has', Device c a (net.returns c b behind result) r Has' ∧ ∀ i, Has i → Has' i := by
  have hnode : (net.returns c b behind result).nodes a = net.nodes a :=
    Function.update_of_ne (Ne.symm hb) _ _
  have hold : ∀ q ∈ (net.returns c b behind result).session.queue ++
      (net.returns c b behind result).reports, q.srcAddr = a →
        q ∈ net.session.queue ++ net.reports := fun q hq hsrc =>
    (returns_self hreports hq hsrc).resolve_right fun h => hb h.1
  cases h with
  | absent h hnone =>
    exact ⟨_, .absent ⟨hnode ▸ h.node, h.requested, h.packets,
      fun q hq hsrc => h.reports q (hold q hq hsrc) hsrc, h.successed⟩ hnone, fun _ => id⟩
  | present p h hhas =>
    refine ⟨_, .present p ⟨hnode ▸ h.node, fun q hq hsrc => ?_, hnode ▸ h.successed⟩
      (hnode ▸ hhas), fun i hi => hnode ▸ hi⟩
    rw [hnode]
    exact h.reports q (hold q hq hsrc) hsrc

variable (hpos : 0 < c.totalSize)
  (hmax : c.totalSize ≤ mupgradePacketMaxNum * mupgradePacketMaxSize)

include hpos hmax in
/-- The device goes on with the firmware; what it says is so. -/
theorem Present.returns {p : ℕ} (h : Present c a p net) (hreports : ReportsOwn result)
    (htaking : Taking c.toSendCall c.name p result.1)
    (hkept : ∀ i, HasPacket c.toSendCall p (net.nodes a) i → HasPacket c.toSendCall p result.1 i) :
    Present c a p (net.returns c a behind result) := by
  have hnode : (net.returns c a behind result).nodes a = result.1 := Function.update_self ..
  refine ⟨hnode ▸ htaking, fun q hq hsrc => ?_, fun ha i hi => ?_⟩
  · rw [hnode]
    rcases returns_self hreports hq hsrc with hq | ⟨-, hq⟩
    · exact (h.reports q hq hsrc).kept hkept
    · obtain ⟨g, hconfig, hdescribes⟩ := report_describes hreports hq
      exact htaking.truthful hpos hmax hconfig hdescribes
  · rw [hnode]
    exact hkept i (h.successed ha i hi)

include hpos hmax in
/-- The device begins with the firmware. -/
theorem Absent.begins {p : ℕ} (h : Absent c a net) (hreports : ReportsOwn result)
    (htaking : Taking c.toSendCall c.name p result.1) :
    Present c a p (net.returns c a behind result) := by
  have hnode : (net.returns c a behind result).nodes a = result.1 := Function.update_self ..
  refine ⟨hnode ▸ htaking, fun q hq hsrc => ?_, fun ha => absurd ha h.successed⟩
  rw [hnode]
  rcases returns_self hreports hq hsrc with hq | ⟨-, hq⟩
  · obtain ⟨-, hzero, hopen⟩ := h.reports q hq hsrc
    exact ⟨fun hall => absurd hall hopen, fun hpart => absurd hzero hpart⟩
  · obtain ⟨g, hconfig, hdescribes⟩ := report_describes hreports hq
    exact htaking.truthful hpos hmax hconfig hdescribes

/-- The device has still not begun. -/
theorem Absent.stays (h : Absent c a net) (hreports : ReportsOwn result)
    (hnode : Elsewhere c.toSendCall c.name result.1)
    (hstops : ∀ q ∈ result.2.1.filterMap (reportOf c a behind result.1),
      q.errorCode = c.mdfErrMupgradeStop ∧ q.writtenSize = 0 ∧ q.writtenSize ≠ q.totalSize) :
    Absent c a (net.returns c a behind result) := by
  have hself : (net.returns c a behind result).nodes a = result.1 := Function.update_self ..
  refine ⟨hself ▸ hnode, h.requested, h.packets, fun q hq hsrc => ?_, h.successed⟩
  rcases returns_self hreports hq hsrc with hq | ⟨-, hq⟩
  · exact h.reports q hq hsrc
  · exact hstops q hq

/-- A message that is on its way to a device is one of the firmware. -/
theorem message_ofFirmware (hsending : Sending c.toSendCall net.session.send) {w : MupgradeWrite}
    (hw : w ∈ net.session.send.writes) (s : StatusEnv) (e : WriteEnv) :
    OfFirmware c.toSendCall c.name (w.message c s e) := by
  cases w with
  | status dests => exact ⟨rfl, rfl⟩
  | packet dests seq size data =>
    obtain ⟨progressArray, packetData, s₀, es, hstart, hrun⟩ := hsending
    exact ⟨c.toSendCall, rfl, rfl, progressArray, packetData, s₀, es, dests, data, hstart,
      hrun ▸ hw, rfl⟩

theorem takes_other {i : ℕ} {s : StatusEnv} {e : WriteEnv} (hb : b ≠ a) :
    net.takes c.toSendCall a (.write b i s e behind) = none := by
  unfold UpgradeNet.takes
  dsimp only
  split
  · rw [if_neg fun h => hb h.1]
  · rfl

theorem takes_some {i seq : ℕ} {s : StatusEnv} {e : WriteEnv}
    (h : net.takes c.toSendCall a (.write b i s e behind) = some seq) :
    ∃ dests size data g, net.session.send.writes[i]? = some (.packet dests seq size data) ∧
      (net.nodes a).gUpgradeConfig = some g ∧ e.partitionWrite = none ∧
      g.status.errorCode ≠ .stop := by
  unfold UpgradeNet.takes at h
  dsimp only at h
  split at h
  · rename_i dests seq' size data g hwrite hconfig
    split at h
    · rename_i hall
      cases h
      exact ⟨dests, size, data, g, hwrite, hconfig, hall.2.2⟩
    · cases h
  · cases h

/-- A packet that gets to a device that has not begun finds no record. -/
theorem Absent.unrecorded (h : Absent c a net) {dests : List Mac} {seq size : ℕ}
    {data : List UInt8} (hw : .packet dests seq size data ∈ net.session.send.writes)
    (hgets : (MupgradeWrite.packet dests seq size data).getsTo c.toSendCall a = true)
    {s : StatusEnv} {e : WriteEnv}
    (hwelcome : Welcome c (net.nodes a) s e (.packet dests seq size data)) :
    (net.nodes a).record e.loaded = none := by
  cases hany : c.addrIsAny || c.addrIsBroadcast with
  | false =>
    have hout := h.packets hany _ hw rfl
    simp [MupgradeWrite.getsTo, hany, hout] at hgets
  | true =>
    cases hrecord : (net.nodes a).record e.loaded with
    | none => rfl
    | some g =>
      have hother := h.node.other e.loaded
      rw [config_of_record hrecord] at hother
      exact absurd (hwelcome hany g hrecord) hother

/-- What a device has taken when a write has got to it. -/
theorem Device.write {Has : ℕ → Prop} (hsending : Sending c.toSendCall net.session.send)
    (h : Device c a net r Has) {i : ℕ} {s : StatusEnv} {e : WriteEnv} {w : MupgradeWrite}
    (hw : net.session.send.writes[i]? = some w) (hgets : w.getsTo c.toSendCall a = true)
    (hregular : Regular c a net (.write a i s e behind)) (hpos : 0 < c.totalSize)
    (hmax : c.totalSize ≤ mupgradePacketMaxNum * mupgradePacketMaxSize) :
    ∃ Has', Device c a
      (net.returns c a behind (mupgradeHandle (net.nodes a) (w.message c s e)))
      (noteDevice c.toSendCall a r net (.write a i s e behind)) Has' ∧ ∀ i, Has i → Has' i := by
  have hmsg := message_ofFirmware hsending (List.mem_of_getElem? hw) s e
  have hreports := mupgradeHandle_reports (net.nodes a) (w.message c s e)
  have hwelcome := hregular rfl w hw
  cases h with
  | absent h hnone =>
    have htakes : net.takes c.toSendCall a (.write a i s e behind) = none := by
      refine Option.eq_none_iff_forall_ne_some.mpr fun seq htakes => ?_
      obtain ⟨dests, size, data, g, hwrite, hsome, -, -⟩ := takes_some htakes
      cases hw.symm.trans hwrite
      have hrecord := h.unrecorded (List.mem_of_getElem? hw) hgets hwelcome
      rw [record_of_config hsome e.loaded] at hrecord
      cases hrecord
    have htaken : (noteDevice c.toSendCall a r net (.write a i s e behind)).taken = [] := by
      simp only [noteDevice, htakes, hnone, Option.toList_none, List.append_nil]
    cases w with
    | status dests =>
      obtain ⟨p, htaking⟩ : ∃ p, Taking c.toSendCall c.name p
          (nodeStep (net.nodes a) (.status s c.requestStatus)) :=
        h.node.begins (hwelcome (h.node.other s.loaded)) rfl rfl MdfErr.noConfusion
      refine ⟨_, .present p (h.begins hpos hmax hreports htaking) ?_, fun _ hi => hi.elim⟩
      rw [htaken]
      exact fun _ hi => absurd hi List.not_mem_nil
    | packet dests seq size data =>
      have hrecord := h.unrecorded (List.mem_of_getElem? hw) hgets hwelcome
      have hwrite : mupgradeHandle (net.nodes a) ((MupgradeWrite.packet dests seq size
          data).message c s e) = (net.nodes a, [], some .notInit) := mupgradeWrite_none hrecord _
      rw [hwrite] at hreports ⊢
      exact ⟨_, .absent (h.stays hreports h.node fun q hq => absurd hq List.not_mem_nil) htaken,
        fun _ => id⟩
  | present p h hhas =>
    obtain ⟨htaking, hkept⟩ := h.node.step hmax hmsg
    have hnode : (net.returns c a behind
        (mupgradeHandle (net.nodes a) (w.message c s e))).nodes a =
          nodeStep (net.nodes a) (w.message c s e) := Function.update_self ..
    refine ⟨_, .present p (h.returns hpos hmax hreports htaking hkept) fun j hj => ?_,
      fun j hj => ?_⟩
    · rw [hnode]
      rcases List.mem_append.mp hj with hj | hj
      · obtain ⟨dests, size, data, g, hwrite, hconfig, hok, hstop⟩ :=
          takes_some (Option.mem_toList.mp hj)
        cases hw.symm.trans hwrite
        exact h.node.takes hmax hmsg hconfig hstop hok
      · exact hkept j (hhas j hj)
    · rw [hnode]
      exact hkept j hj

/-- What a device has when it has called `mupgrade_stop`. -/
theorem Device.stop {Has : ℕ → Prop} (h : Device c a net r Has) (behind : ℕ → UInt8) (e : StopEnv)
    (hpos : 0 < c.totalSize)
    (hmax : c.totalSize ≤ mupgradePacketMaxNum * mupgradePacketMaxSize) :
    ∃ Has', Device c a (net.returns c a behind (returned (mupgradeStop e (net.nodes a)))) r Has' ∧
      ∀ i, Has i → Has' i := by
  have hreports := mupgradeStop_reports e (net.nodes a)
  cases h with
  | absent h hnone =>
    exact ⟨_, .absent (h.stays hreports (h.node.stop e) fun q hq => h.node.stop_report e hq) hnone,
      fun _ => id⟩
  | present p h hhas =>
    obtain ⟨htaking, hkept⟩ := h.node.stop e
    have hnode : (net.returns c a behind (returned (mupgradeStop e (net.nodes a)))).nodes a =
        (mupgradeStop e (net.nodes a)).1 := Function.update_self ..
    exact ⟨_, .present p (h.returns hpos hmax hreports htaking hkept)
      (fun i hi => hnode ▸ hkept i (hhas i hi)), fun i hi => hnode ▸ hkept i hi⟩

end Nodes

/-! ## Runs -/

/-- The beginning of a call of `mupgrade_firmware_send`. -/
theorem start_inv {c : UpgradeCall} {a : Mac} {progressArray packetData : ℕ → UInt8}
    {nodes : Mac → UpgradeNode} {net : UpgradeNet}
    (hstart : UpgradeNet.start c progressArray packetData nodes = some net)
    (hnode : Elsewhere c.toSendCall c.name (nodes a)) : NetInv c a (net, ⟨[], []⟩) := by
  obtain ⟨s, hs, rfl⟩ := Option.map_eq_some_iff.mp hstart
  have hsending : Sending c.toSendCall s := ⟨progressArray, packetData, s, [], hs, rfl⟩
  have hfields : s.requestedAddr = [] ∧ s.writes = [] ∧ s.successedAddr = [] ∧
      s.pc.knowing = false := by
    unfold mupgradeFirmwareSend at hs
    split at hs
    · cases hs
      refine ⟨rfl, rfl, rfl, ?_⟩
      dsimp only
      split <;> rfl
    · cases hs
  obtain ⟨hrequested, hwrites, hsuccessed, hpc⟩ := hfields
  refine ⟨hsending, _, .absent ⟨hnode, ?_, fun _ w hw => ?_, fun q hq => ?_, ?_⟩ rfl,
    Course.leave ?_ (fun _ => hrequested) hpc⟩
  · rw [hrequested]
    exact List.not_mem_nil
  · rw [hwrites] at hw
    exact absurd hw List.not_mem_nil
  · exact absurd hq List.not_mem_nil
  · rw [hsuccessed]
    exact List.not_mem_nil
  · exact List.nil_suffix

section Runs
variable {c : UpgradeCall} {a : Mac} (hpos : 0 < c.totalSize)
  (hmax : c.totalSize ≤ mupgradePacketMaxNum * mupgradePacketMaxSize)
include hpos hmax

theorem write_inv {net : UpgradeNet} {r : DeviceNotes} (h : NetInv c a (net, r)) {b : Mac} {i : ℕ}
    {s : StatusEnv} {e : WriteEnv} {behind : ℕ → UInt8} {w : MupgradeWrite}
    (hw : net.session.send.writes[i]? = some w) (hgets : w.getsTo c.toSendCall b = true)
    (hregular : Regular c a net (.write b i s e behind)) :
    NetInv c a (net.returns c b behind (mupgradeHandle (net.nodes b) (w.message c s e)),
      noteDevice c.toSendCall a r net (.write b i s e behind)) := by
  obtain ⟨hsending, Has, hdevice, hcourse⟩ := h
  refine ⟨hsending, ?_⟩
  by_cases hb : b = a
  · subst hb
    obtain ⟨Has', hdevice', hmono⟩ :=
      hdevice.write hsending hw hgets hregular hpos hmax
    exact ⟨Has', hdevice', hcourse.mono hmono⟩
  · have hnotes : noteDevice c.toSendCall a r net (.write b i s e behind) = r := by
      have htaken : noteDevice c.toSendCall a r net (.write b i s e behind) =
          ⟨r.base, (net.takes c.toSendCall a (.write b i s e behind)).toList ++ r.taken⟩ := rfl
      rw [htaken, takes_other hb]
      rfl
    obtain ⟨Has', hdevice', hmono⟩ :=
      hdevice.other behind hb (mupgradeHandle_reports (net.nodes b) (w.message c s e))
    rw [hnotes]
    exact ⟨Has', hdevice', hcourse.mono hmono⟩

theorem nodeStop_inv {net : UpgradeNet} {r : DeviceNotes} (h : NetInv c a (net, r)) (b : Mac)
    (e : StopEnv) (behind : ℕ → UInt8) :
    NetInv c a (net.returns c b behind (returned (mupgradeStop e (net.nodes b))), r) := by
  obtain ⟨hsending, Has, hdevice, hcourse⟩ := h
  refine ⟨hsending, ?_⟩
  by_cases hb : b = a
  · subst hb
    obtain ⟨Has', hdevice', hmono⟩ := hdevice.stop behind e hpos hmax
    exact ⟨Has', hdevice', hcourse.mono hmono⟩
  · obtain ⟨Has', hdevice', hmono⟩ :=
      hdevice.other behind hb (mupgradeStop_reports e (net.nodes b))
    exact ⟨Has', hdevice', hcourse.mono hmono⟩

/-- **A step of the mesh.** -/
theorem net_inv (w : UpgradeNet × DeviceNotes) (e : NetEvent) (h : NetInv c a w)
    (hregular : Regular c a w.1 e) :
    NetInv c a (observe (UpgradeNet.step c) (noteDevice c.toSendCall a) w e) := by
  obtain ⟨net, r⟩ := w
  have hnum : c.packetNum ≤ mupgradePacketMaxNum := by
    rw [packetNum_eq hmax]
    simp only [mupgradePacketMaxNum, mupgradePacketMaxSize] at hmax ⊢
    simp only [Blocks.num]
    omega
  cases e with
  | report i =>
    cases hq : net.reports[i]? with
    | none =>
      have hstay : observe (UpgradeNet.step c) (noteDevice c.toSendCall a) (net, r) (.report i) =
          (net, r) := by
        simp [observe, UpgradeNet.step, UpgradeNet.sessionEvent, UpgradeNet.nodeEvent, hq,
          noteDevice, UpgradeNet.takes]
      rw [hstay]
      exact h
    | some q =>
      have hr : net.sessionEvent (.report i) = some (.handle q) := by
        simp [UpgradeNet.sessionEvent, hq]
      have hstep := session_inv hnum h hr
      rwa [observe, UpgradeNet.step, hr]
  | receive => exact session_inv hnum h rfl
  | flash ok => exact session_inv hnum h rfl
  | next => exact session_inv hnum h rfl
  | stop => exact session_inv hnum h rfl
  | nodeStop b e behind => exact nodeStop_inv hpos hmax h b e behind
  | write b i s e behind =>
    cases hgets : net.session.send.writes[i]?.filter (·.getsTo c.toSendCall b) with
    | none =>
      have htakes : net.takes c.toSendCall a (.write b i s e behind) = none := by
        refine Option.eq_none_iff_forall_ne_some.mpr fun seq htakes => ?_
        unfold UpgradeNet.takes at htakes
        dsimp only at htakes
        split at htakes
        · rename_i dests seq' size data g hwrite hconfig
          split at htakes
          · rename_i hall
            rw [hwrite, hall.1] at hgets
            simp [hall.2.1] at hgets
          · cases htakes
        · cases htakes
      have hstay : observe (UpgradeNet.step c) (noteDevice c.toSendCall a) (net, r)
          (.write b i s e behind) = (net, r) := by
        simp [observe, UpgradeNet.step, UpgradeNet.sessionEvent, UpgradeNet.nodeEvent, hgets,
          noteDevice, htakes]
      rw [hstay]
      exact h
    | some w =>
      obtain ⟨hw, hto⟩ := Option.filter_eq_some_iff.mp hgets
      have hstep := write_inv hpos hmax h hw hto hregular
      rwa [observe, UpgradeNet.step, UpgradeNet.nodeEvent, hgets]

theorem run_inv {progressArray packetData : ℕ → UInt8} {nodes : Mac → UpgradeNode}
    {net : UpgradeNet} (hstart : UpgradeNet.start c progressArray packetData nodes = some net)
    (hnode : Elsewhere c.toSendCall c.name (nodes a)) {es : List NetEvent}
    (hregular : Along (UpgradeNet.step c) (Regular c a) net es) :
    NetInv c a (run (observe (UpgradeNet.step c) (noteDevice c.toSendCall a)) (net, ⟨[], []⟩) es) :=
  run_invariant_along (net_inv hpos hmax) (start_inv hstart hnode)
    ((along_observe (noteDevice c.toSendCall a) (net, ⟨[], []⟩) es).mpr hregular)

end Runs

/-- What is noted of the device in a run. -/
def UpgradeNet.notes (c : UpgradeCall) (a : Mac) (net : UpgradeNet) (es : List NetEvent) :
    DeviceNotes :=
  (run (observe (UpgradeNet.step c) (noteDevice c.toSendCall a)) (net, ⟨[], []⟩) es).2

section Results
variable {c : UpgradeCall} {a : Mac}

theorem last_inv (hpos : 0 < c.totalSize)
    (hmax : c.totalSize ≤ mupgradePacketMaxNum * mupgradePacketMaxSize)
    {progressArray packetData : ℕ → UInt8} {nodes : Mac → UpgradeNode} {net : UpgradeNet}
    (hstart : UpgradeNet.start c progressArray packetData nodes = some net)
    (hnew : Elsewhere c.toSendCall c.name (nodes a)) {es : List NetEvent}
    (hregular : Along (UpgradeNet.step c) (Regular c a) net es) :
    NetInv c a (run (UpgradeNet.step c) net es, net.notes c a es) := by
  have hinv := run_inv hpos hmax hstart hnew hregular
  have hlast :
      (run (observe (UpgradeNet.step c) (noteDevice c.toSendCall a)) (net, ⟨[], []⟩) es).1 =
        run (UpgradeNet.step c) net es := run_observe _ _ es
  have hpair : (run (UpgradeNet.step c) net es, net.notes c a es) =
      run (observe (UpgradeNet.step c) (noteDevice c.toSendCall a)) (net, ⟨[], []⟩) es :=
    Prod.ext hlast.symm rfl
  rwa [hpair]

/-- The device has a record of the firmware, with its partition. -/
structure HasRecord (c : UpgradeCall) (n : UpgradeNode) (p : ℕ) (g : MupgradeConfig) : Prop where
  config : n.gUpgradeConfig = some g
  name : g.status.name = c.name
  totalSize : g.status.totalSize = c.totalSize
  partition : g.partition = some p

theorem Present.record {p : ℕ} {net : UpgradeNet} (h : Present c a p net) :
    ∃ g, HasRecord c (net.nodes a) p g := by
  obtain ⟨g, hconfig, hname, hsize, hpartition⟩ := h.node.config
  exact ⟨g, hconfig, hname, hsize, hpartition⟩

end Results

/-! ## One device, two packets -/

def paddedCall : UpgradeCall where
  toSendCall := paddedFirmware
  name := paddedName
  errorCode
    | .stop => 10
    | _ => 0
  stopCode := rfl

def paddedNet : UpgradeNet := ⟨⟨sendOfPadded, []⟩, fun _ => freshBegin.before, []⟩

/-- The device is asked and answers, and both packets get to it. -/
def paddedRound : List NetEvent :=
  let gets : NetEvent := .write (macOf 10) 0 freshStatusEnv allSucceed fun _ => 0
  [.next, .receive, .next, gets, .report 0, .receive, .next,
    .next, .flash true, .receive, .next, gets, .next, .flash true, .receive, .next, gets]

/-- The next round begins with the message that all is written. -/
def paddedEvents : List NetEvent := paddedRound ++ [.next, .next, .report 1, .receive]

theorem fresh_elsewhere (hpos : 0 < paddedCall.totalSize) :
    Elsewhere paddedCall.toSendCall paddedCall.name freshBegin.before := by
  refine ⟨fun loaded h => ?_, fun g hg => (by cases hg)⟩
  have hzero : (freshBegin.before.config loaded).status.totalSize = 0 := by
    cases loaded <;> rfl
  exact absurd (hzero.symm.trans h.2) (Nat.ne_of_lt hpos)

theorem fresh_begins : freshStatusEnv.Begins paddedCall.toSendCall :=
  ⟨rfl, rfl, rfl, rfl, fun _ _ => rfl⟩

theorem padded_regular (net : UpgradeNet) (e : NetEvent) (he : e ∈ paddedEvents) :
    Regular paddedCall (macOf 10) net e := by
  have hwelcome : ∀ w, Welcome paddedCall (net.nodes (macOf 10)) freshStatusEnv allSucceed w := by
    intro w
    cases w with
    | status dests => exact fun _ => fresh_begins
    | packet dests seq size data => exact fun hany => absurd hany Bool.false_ne_true
  simp only [paddedEvents, paddedRound, List.cons_append, List.nil_append, List.mem_cons,
    List.not_mem_nil, or_false] at he
  rcases he with rfl | rfl | rfl | rfl | rfl | rfl | rfl | rfl | rfl | rfl | rfl | rfl | rfl | rfl |
    rfl | rfl | rfl | rfl | rfl | rfl | rfl
  all_goals first | trivial | exact fun _ w _ => hwelcome w

theorem paddedNet_start :
    UpgradeNet.start paddedCall (fun _ => 0) (fun _ => 0) (fun _ => freshBegin.before) =
      some paddedNet :=
  rfl

theorem padded_along {es : List NetEvent} (hes : ∀ e ∈ es, e ∈ paddedEvents) :
    Along (UpgradeNet.step paddedCall) (Regular paddedCall (macOf 10)) paddedNet es :=
  along_of_forall fun net e he => padded_regular net e (hes e he)

/-- All that is written to a device is a packet of the firmware. -/
theorem SentTo.inside {c : SendCall} {a : Mac} {base : List MupgradeWrite} {i : ℕ} {s : Send}
    (h : SentTo c a base i s) (hsending : Sending c s) : i < c.packetNum := by
  obtain ⟨new, hnew, dests, size, data, hmem, -⟩ := h
  obtain ⟨progressArray, packetData, s₀, es, hstart, rfl⟩ := hsending
  have hsent : Sent c i size fun k => data.getD k 0 :=
    ⟨progressArray, packetData, s₀, es, dests, data, hstart,
      hnew ▸ List.mem_append_left _ hmem, rfl⟩
  exact (sent_packetAt hsent).inside

theorem paddedRound_events : ∀ e ∈ paddedRound, e ∈ paddedEvents := fun _ he =>
  List.mem_append_left _ he

/-! ## Every run -/

section Results
variable {c : UpgradeCall} {a : Mac}

end Results

end EspMesh
