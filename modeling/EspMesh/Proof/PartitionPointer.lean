import EspMesh.Proof.NodeMessage

/-! # Which partition a packet is written to

The record that `mdf_info_load` brings back holds the partition pointer it was saved with. It
overwrites the pointer that `mupgrade_write` has just fetched, and `mupgrade_status` does not fetch
one for a firmware that is on record.
-/

namespace EspMesh
set_option autoImplicit false
open ByteMem NorFlash StepRuns

/-! ## The pointers of a boot -/

/-- What `esp_ota_get_next_update_partition` has returned in this boot and in earlier ones, and
whether the record in use has been begun in this boot. -/
structure PointerNotes where
  returned : List ℕ
  earlier : List ℕ
  begun : Bool

/-- The request finds both partitions for its firmware. -/
def StatusEnv.begins (e : StatusEnv) : Bool := !e.isRoot && e.running.isSome && e.update.isSome

/-- What `esp_ota_get_next_update_partition` returns in the course of an event. -/
def returnedBy (n : UpgradeNode) : NodeEvent → List ℕ
  | .msg (.status e status) =>
    if (n.config e.loaded).status.firmware = status.firmware then [] else e.update.toList
  | .msg (.data e packet) =>
    if n.gUpgradeConfig.isNone || (mupgradeWrite e packet n).2.1.any NodeCall.isSetBoot then
      e.update.toList
    else []
  | .cut e _ => if n.gUpgradeConfig.isNone then e.update.toList else []
  | .reset => []

/-- A packet whose handling resets the device ends the boot. -/
def notePointers (notes : PointerNotes) (n : UpgradeNode) (e : NodeEvent) : PointerNotes :=
  match e with
  | .msg (.status s status) =>
    { notes with
      returned := returnedBy n e ++ notes.returned
      begun := if (n.config s.loaded).status.firmware = status.firmware then notes.begun
        else s.begins }
  | .msg (.data w packet) =>
    if (mupgradeWrite w packet n).2.2.isNone then
      ⟨[], returnedBy n e ++ notes.returned ++ notes.earlier, false⟩
    else { notes with returned := returnedBy n e ++ notes.returned }
  | .reset | .cut _ _ => ⟨[], returnedBy n e ++ notes.returned ++ notes.earlier, false⟩

/-- A pointer says which boot it is of: those of earlier boots do not come again. -/
def PointersNew (w : UpgradeNode × PointerNotes) (e : NodeEvent) : Prop :=
  ∀ p ∈ returnedBy w.1 e, p ∉ w.2.earlier

instance (w : UpgradeNode × PointerNotes) (e : NodeEvent) : Decidable (PointersNew w e) :=
  inferInstanceAs (Decidable (∀ p ∈ returnedBy w.1 e, p ∉ w.2.earlier))

/-- What is written is written to a partition that this boot has been given. -/
def WritesHere (w : UpgradeNode × PointerNotes) (e : NodeEvent) : Prop :=
  ∀ q offset size, .partitionWrite q offset size ∈ eventCalls w.1 e →
    ∃ p, q = some p ∧ p ∈ returnedBy w.1 e ++ w.2.returned

/-- A packet that is written meets a record that a request of this boot has begun. -/
def BegunHere (w : UpgradeNode × PointerNotes) : NodeEvent → Prop
  | .msg (.status _ _) | .reset => True
  | .msg (.data e packet) | .cut e packet => ∀ g, w.1.WritesTo e packet g → w.2.begun = true

/-- The pointer, if there is one, is of an earlier boot. -/
def MupgradeConfig.Stale (earlier : List ℕ) (g : MupgradeConfig) : Prop :=
  ∀ p, g.partition = some p → p ∈ earlier

structure PointersNoted (w : UpgradeNode × PointerNotes) : Prop where
  apart : ∀ p ∈ w.2.returned, p ∉ w.2.earlier
  begun : w.2.begun = true →
    ∃ g p, w.1.gUpgradeConfig = some g ∧ g.partition = some p ∧ p ∈ w.2.returned
  config : w.2.begun = false → ∀ g, w.1.gUpgradeConfig = some g → g.Stale w.2.earlier
  unused : w.1.gUpgradeConfig = none → ∀ g, w.1.info = some g → g.Stale w.2.earlier
  info : ∀ g, w.1.info = some g → g.Stale (w.2.returned ++ w.2.earlier)

section Steps
variable {n : UpgradeNode} {notes : PointerNotes} {e : WriteEnv} {packet : MupgradePacket}
  {g : MupgradeConfig}

theorem PointersNoted.record_begun (h : PointersNoted (n, notes)) (hbegun : notes.begun = true)
    {loaded : Bool} (hrecord : n.record loaded = some g) :
    ∃ p, g.partition = some p ∧ p ∈ notes.returned := by
  obtain ⟨g', p, hconfig, hpartition, hp⟩ := h.begun hbegun
  obtain rfl : g' = g :=
    Option.some.inj ((record_of_config hconfig loaded).symm.trans hrecord)
  exact ⟨p, hpartition, hp⟩

theorem PointersNoted.record_stale (h : PointersNoted (n, notes)) (hbegun : notes.begun = false)
    {loaded : Bool} (hrecord : n.record loaded = some g) : g.Stale notes.earlier := by
  have hconfig := h.config hbegun
  have hunused := h.unused
  obtain ⟨config, _, _, info, _⟩ := n
  cases config with
  | some g' => exact hconfig g hrecord
  | none =>
    cases info <;> cases loaded <;> cases hrecord
    exact hunused rfl g rfl

/-! ## One event -/

/-- A write is to the pointer on record, so it is one of this boot if the record was begun here. -/
theorem writes_here_iff (h : PointersNoted (n, notes)) {event : NodeEvent}
    (hnew : PointersNew (n, notes) event) {calls : List NodeCall}
    (hcalls : ∀ call : NodeCall, call.isPartitionWrite = true →
      (call ∈ calls ↔ ∃ g, n.WritesTo e packet g ∧ call = g.writeCall packet)) :
    (∀ q offset size, .partitionWrite q offset size ∈ calls →
        ∃ p, q = some p ∧ p ∈ returnedBy n event ++ notes.returned) ↔
      ∀ g, n.WritesTo e packet g → notes.begun = true := by
  constructor
  · intro hwrites g hg
    by_contra hnot
    have hbegun : notes.begun = false := by simpa using hnot
    obtain ⟨p, hpartition, hp⟩ := hwrites _ _ _ ((hcalls (g.writeCall packet) rfl).mpr ⟨g, hg, rfl⟩)
    have hstale := h.record_stale hbegun hg.1 p hpartition
    rcases List.mem_append.mp hp with hp | hp
    · exact hnew p hp hstale
    · exact h.apart p hp hstale
  · intro hbegun q offset size hmem
    obtain ⟨g, hg, hcall⟩ := (hcalls _ rfl).mp hmem
    obtain ⟨rfl, -, -⟩ := NodeCall.partitionWrite.inj hcall
    obtain ⟨p, hpartition, hp⟩ := h.record_begun (hbegun g hg) hg.1
    exact ⟨p, hpartition, List.mem_append_right _ hp⟩

theorem event_writes_iff (w : UpgradeNode × PointerNotes) (event : NodeEvent)
    (h : PointersNoted w) (hnew : PointersNew w event) :
    WritesHere w event ↔ BegunHere w event := by
  obtain ⟨n, notes⟩ := w
  cases event with
  | msg msg =>
    cases msg with
    | status e status =>
      refine iff_of_true (fun q offset size hcall => ?_) trivial
      cases status_no_write e status n _ hcall
    | data e packet => exact writes_here_iff h hnew fun _ hcall => write_mem_iff hcall
  | reset => exact iff_of_true (fun _ _ _ hcall => (by cases hcall)) trivial
  | cut e packet => exact writes_here_iff h hnew fun _ hcall => cut_mem_iff hcall

/-! ## What is kept -/

/-- A packet leaves the pointer on record, and nothing else is saved with another, unless the
device is reset. -/
theorem data_partition (packet : MupgradePacket) (hrecord : n.record e.loaded = some g) :
    ((mupgradeWrite e packet n).2.2.isNone = true ∧
        (nodeStep n (.data e packet)).gUpgradeConfig = none ∧
        (nodeStep n (.data e packet)).info = n.info) ∨
      (mupgradeWrite e packet n).2.2.isNone = false ∧ ∃ g',
        (nodeStep n (.data e packet)).gUpgradeConfig = some g' ∧ g'.partition = g.partition ∧
        ∀ k, (nodeStep n (.data e packet)).info = some k →
          n.info = some k ∨ k.partition = g.partition := by
  rw [nodeStep, mupgradeHandle]
  refine mupgradeWrite_cases e packet n fun result hcases => ?_
  cases hcases with
  | notInit hrecord' => cases hrecord'.symm.trans hrecord
  | stopped g' hrecord' =>
    obtain rfl := Option.mem_unique hrecord' hrecord
    exact .inr ⟨rfl, _, rfl, rfl, fun _ hk => (by cases hk)⟩
  | refused g' hrecord' =>
    obtain rfl := Option.mem_unique hrecord' hrecord
    exact .inr ⟨rfl, _, rfl, rfl, fun _ hk => .inl hk⟩
  | fails g' hrecord' =>
    obtain rfl := Option.mem_unique hrecord' hrecord
    exact .inr ⟨rfl, _, rfl, rfl, fun _ hk => .inl hk⟩
  | divides => exact .inl ⟨rfl, rfl, rfl⟩
  | counted g' hrecord' =>
    obtain rfl := Option.mem_unique hrecord' hrecord
    refine .inr ⟨rfl, _, rfl, rfl, fun k hk => ?_⟩
    simp only [UpgradeNode.reported] at hk
    split at hk
    · rw [← Option.some.inj hk]
      exact .inr rfl
    · exact .inl hk
  | bootFails g' hrecord' =>
    obtain rfl := Option.mem_unique hrecord' hrecord
    exact .inr ⟨rfl, _, rfl, rfl, fun _ hk => (by cases hk)⟩
  | completes g' hrecord' =>
    obtain rfl := Option.mem_unique hrecord' hrecord
    exact .inr ⟨rfl, _, rfl, rfl, fun _ hk => (by cases hk)⟩

/-- A request for another firmware takes the pointer it has fetched, or none at all. -/
theorem status_partition (e : StatusEnv) {status : MupgradeStatus}
    (h : (n.config e.loaded).status.firmware ≠ status.firmware) : ∃ g',
    (nodeStep n (.status e status)).gUpgradeConfig = some g' ∧
      (e.begins = false ∧ g'.partition = none ∨
        ∃ p, e.begins = true ∧ e.update = some p ∧ g'.partition = some p) ∧
      ∀ k, (nodeStep n (.status e status)).info = some k →
        n.info = some k ∨ k.partition = g'.partition := by
  rw [nodeStep, handle_status_node]
  refine mupgradeStatus_cases e status n fun result hcases => ?_
  cases hcases with
  | same hsame => exact absurd hsame h
  | root _ hroot =>
    have hbegins : e.begins = false := by simp [StatusEnv.begins, hroot]
    unfold statusRoot
    dsimp only
    split
    · exact ⟨_, rfl, .inl ⟨hbegins, rfl⟩, fun _ hk => .inl hk⟩
    · exact ⟨_, rfl, .inl ⟨hbegins, rfl⟩, fun _ hk => .inl hk⟩
  | noPartition _ hroot hnone =>
    have hbegins : e.begins = false := by
      rcases hnone with hnone | hnone <;> simp [StatusEnv.begins, hnone]
    exact ⟨_, rfl, .inl ⟨hbegins, rfl⟩, fun _ hk => .inl hk⟩
  | begins p _ hroot hrunning hupdate =>
    have hbegins : e.begins = true := by simp [StatusEnv.begins, hroot, hrunning, hupdate]
    unfold statusBegin
    dsimp only
    split
    · exact ⟨_, rfl, .inr ⟨p, hbegins, hupdate, rfl⟩, fun _ hk => .inl hk⟩
    · split
      · exact ⟨_, rfl, .inr ⟨p, hbegins, hupdate, rfl⟩, fun _ hk => .inl hk⟩
      · refine ⟨_, rfl, .inr ⟨p, hbegins, hupdate, rfl⟩, fun k hk => .inr ?_⟩
        rw [← Option.some.inj hk]
        rfl

theorem MupgradeConfig.Stale.mono {earlier later : List ℕ} (h : g.Stale earlier)
    (hmem : ∀ p ∈ earlier, p ∈ later) : g.Stale later :=
  fun p hp => hmem p (h p hp)

theorem MupgradeConfig.Stale.same {earlier : List ℕ} (h : g.Stale earlier) {g' : MupgradeConfig}
    (hpartition : g'.partition = g.partition) : g'.Stale earlier :=
  fun p hp => h p (hpartition ▸ hp)

theorem apart_append (h : PointersNoted (n, notes)) {event : NodeEvent}
    (hnew : PointersNew (n, notes) event) :
    ∀ p ∈ returnedBy n event ++ notes.returned, p ∉ notes.earlier := by
  intro p hp
  rcases List.mem_append.mp hp with hp | hp
  · exact hnew p hp
  · exact h.apart p hp

theorem PointersNoted.config_stale (h : PointersNoted (n, notes)) (hbegun : notes.begun = false)
    (loaded : Bool) : (n.config loaded).Stale notes.earlier := by
  cases hrecord : n.record loaded with
  | some g =>
    rw [config_of_record hrecord]
    exact h.record_stale hbegun hrecord
  | none =>
    obtain ⟨config, _, _, info, _⟩ := n
    cases config with
    | some g => cases hrecord
    | none =>
      cases info <;> cases loaded <;> first | exact fun _ hp => (by cases hp) | cases hrecord

theorem PointersNoted.config_begun (h : PointersNoted (n, notes)) (hbegun : notes.begun = true)
    (loaded : Bool) : ∃ p, (n.config loaded).partition = some p ∧ p ∈ notes.returned := by
  obtain ⟨g, p, hconfig, hpartition, hp⟩ := h.begun hbegun
  rw [config_of_record (record_of_config hconfig loaded)]
  exact ⟨p, hpartition, hp⟩

theorem PointersNoted.config_known (h : PointersNoted (n, notes)) (loaded : Bool) :
    (n.config loaded).Stale (notes.returned ++ notes.earlier) := by
  intro p hp
  cases hbegun : notes.begun with
  | true =>
    obtain ⟨q, hpartition, hq⟩ := h.config_begun hbegun loaded
    rw [Option.some.inj (hp.symm.trans hpartition)]
    exact List.mem_append_left _ hq
  | false => exact List.mem_append_right _ (h.config_stale hbegun loaded p hp)

/-- A known pointer stays known when more are returned. -/
theorem MupgradeConfig.Stale.more (h : g.Stale (notes.returned ++ notes.earlier)) (more : List ℕ) :
    g.Stale (more ++ notes.returned ++ notes.earlier) :=
  h.mono fun p hp => by rw [List.append_assoc]; exact List.mem_append_right _ hp

/-- More has been returned, and nothing else has changed. -/
theorem PointersNoted.more (h : PointersNoted (n, notes)) {event : NodeEvent}
    (hnew : PointersNew (n, notes) event) :
    PointersNoted (n, { notes with returned := returnedBy n event ++ notes.returned }) := by
  refine ⟨apart_append h hnew, fun hbegun => ?_, h.config, h.unused, fun g hg => ?_⟩
  · obtain ⟨g, p, hconfig, hpartition, hp⟩ := h.begun hbegun
    exact ⟨g, p, hconfig, hpartition, List.mem_append_right _ hp⟩
  · exact (h.info g hg).more _

/-- The record in use keeps its pointer. -/
theorem PointersNoted.keeps (h : PointersNoted (n, notes)) {event : NodeEvent}
    (hnew : PointersNew (n, notes) event) {n' : UpgradeNode} {loaded : Bool}
    (hconfig : n'.gUpgradeConfig = some g)
    (hpartition : g.partition = (n.config loaded).partition)
    (hinfo : ∀ k, n'.info = some k → n.info = some k ∨
      k.partition = (n.config loaded).partition) :
    PointersNoted (n', { notes with returned := returnedBy n event ++ notes.returned }) := by
  refine ⟨apart_append h hnew, fun hbegun => ?_, fun hbegun g' hg' => ?_, fun hnone => ?_,
    fun k hk => ?_⟩
  · obtain ⟨p, hp, hmem⟩ := h.config_begun hbegun loaded
    exact ⟨g, p, hconfig, hpartition.trans hp, List.mem_append_right _ hmem⟩
  · rw [← Option.some.inj (hconfig.symm.trans hg')]
    exact (h.config_stale hbegun loaded).same hpartition
  · cases hconfig.symm.trans hnone
  · rcases hinfo k hk with hk | hk
    · exact (h.info k hk).more _
    · exact ((h.config_known loaded).same hk).more _

theorem status_noted (h : PointersNoted (n, notes)) {e : StatusEnv} {status : MupgradeStatus}
    (hnew : PointersNew (n, notes) (.msg (.status e status))) :
    PointersNoted (observe nodeEvent notePointers (n, notes) (.msg (.status e status))) := by
  simp only [observe, nodeEvent, notePointers]
  by_cases hsame : (n.config e.loaded).status.firmware = status.firmware
  · rw [if_pos hsame, nodeStep, handle_status_node, mupgradeStatus_same e hsame]
    exact h.keeps hnew rfl rfl fun _ hk => .inl hk
  · rw [if_neg hsame]
    obtain ⟨g', hconfig, hpointer, hinfo⟩ := status_partition e hsame
    have hreturned : returnedBy n (.msg (.status e status)) = e.update.toList := if_neg hsame
    have hknown : g'.Stale (returnedBy n (.msg (.status e status)) ++ notes.returned ++
        notes.earlier) := by
      intro p hp
      rcases hpointer with ⟨-, hnone⟩ | ⟨q, -, hupdate, hsome⟩
      · cases hnone.symm.trans hp
      · rw [hreturned, hupdate, Option.some.inj (hp.symm.trans hsome)]
        exact List.mem_append_left _ (List.mem_append_left _ (List.mem_singleton_self _))
    refine ⟨apart_append h hnew, fun hbegun => ?_, fun hbegun g hg => ?_, fun hnone => ?_,
      fun k hk => ?_⟩
    · rcases hpointer with ⟨hnot, -⟩ | ⟨q, -, hupdate, hsome⟩
      · cases hnot.symm.trans hbegun
      · refine ⟨g', q, hconfig, hsome, List.mem_append_left _ ?_⟩
        rw [hreturned, hupdate]
        exact List.mem_singleton_self _
    · rcases hpointer with ⟨-, hnone⟩ | ⟨q, hbegins, -⟩
      · rw [← Option.some.inj (hconfig.symm.trans hg)]
        intro p hp
        cases hnone.symm.trans hp
      · cases hbegins.symm.trans hbegun
    · cases hconfig.symm.trans hnone
    · rcases hinfo k hk with hk | hk
      · exact (h.info k hk).more _
      · exact hknown.same hk

/-- Behind a reset all pointers are of an earlier boot. -/
theorem reset_noted {n' : UpgradeNode} {earlier : List ℕ} (hconfig : n'.gUpgradeConfig = none)
    (hinfo : ∀ g, n'.info = some g → g.Stale earlier) :
    PointersNoted (n', ⟨[], earlier, false⟩) := by
  refine ⟨fun _ hp => (by cases hp), fun hbegun => (by cases hbegun), fun _ g hg => ?_,
    fun _ => hinfo, hinfo⟩
  cases hconfig.symm.trans hg

theorem data_noted (h : PointersNoted (n, notes))
    (hnew : PointersNew (n, notes) (.msg (.data e packet))) :
    PointersNoted (observe nodeEvent notePointers (n, notes) (.msg (.data e packet))) := by
  cases hrecord : n.record e.loaded with
  | none =>
    have hwrite := mupgradeWrite_none hrecord packet
    rw [observe, nodeEvent, nodeStep, notePointers, mupgradeHandle, hwrite]
    exact h.more hnew
  | some g =>
    rw [observe, nodeEvent, notePointers]
    rcases data_partition packet hrecord with
      ⟨hreset, hconfig, hinfo⟩ | ⟨hreturns, g', hconfig, hpartition, hinfo⟩
    · rw [if_pos hreset]
      refine reset_noted hconfig fun k hk => ?_
      exact (h.info k (hinfo ▸ hk)).more _
    · rw [if_neg (by simp [hreturns])]
      rw [← config_of_record hrecord] at hpartition hinfo
      exact h.keeps hnew hconfig hpartition hinfo

theorem event_noted (w : UpgradeNode × PointerNotes) (event : NodeEvent) (h : PointersNoted w)
    (hnew : PointersNew w event) : PointersNoted (observe nodeEvent notePointers w event) := by
  obtain ⟨n, notes⟩ := w
  cases event with
  | msg msg =>
    cases msg with
    | status e status => exact status_noted h hnew
    | data e packet => exact data_noted h hnew
  | reset => exact reset_noted rfl fun g hg => (h.info g hg).more _
  | cut e packet =>
    cases hrecord : n.record e.loaded with
    | none =>
      refine reset_noted ?_ fun g hg => ?_
      · rw [nodeEvent, UpgradeNode.cut, hrecord]
        rfl
      · rw [nodeEvent, UpgradeNode.cut, hrecord] at hg
        exact (h.info g hg).more _
    | some g =>
      refine reset_noted ?_ fun k hk => ?_
      · rw [nodeEvent, UpgradeNode.cut, hrecord]
        rfl
      · rw [nodeEvent, UpgradeNode.cut, hrecord] at hk
        have hknown := h.config_known e.loaded
        rw [config_of_record hrecord] at hknown
        simp only [UpgradeNode.boot] at hk
        split at hk
        · rw [← Option.some.inj hk]
          exact (hknown.same rfl).more _
        · exact (h.info k hk).more _

end Steps

/-- **The partition pointer.** In every run of a device over any number of boots, each packet that
is written goes to a partition that `esp_ota_get_next_update_partition` has returned in that boot,
exactly when each of these packets meets a record that a request has begun in that boot. -/
theorem pointer_of_this_boot (flash : ℕ → Flash) (es : List NodeEvent)
    (hnew : Along (observe nodeEvent notePointers) PointersNew
      (.boot none flash, ⟨[], [], false⟩) es) :
    Along (observe nodeEvent notePointers) WritesHere (.boot none flash, ⟨[], [], false⟩) es ↔
      Along (observe nodeEvent notePointers) BegunHere (.boot none flash, ⟨[], [], false⟩) es := by
  have hboot : PointersNoted (.boot none flash, ⟨[], [], false⟩) :=
    reset_noted rfl fun _ hg => (by cases hg)
  exact along_congr event_noted event_writes_iff hboot hnew

/-- In each of two boots a firmware is asked for and the first packet comes. -/
def twoBoots : List NodeEvent :=
  [.msg (.status freshStatusEnv { paddedRequest with errorCode := .ok }),
    .msg (.data allSucceed firstPacket), .reset,
    .msg (.status { freshStatusEnv with loaded := true, update := some 2 }
      { paddedRequest with name := Bytes.const 32 2, errorCode := .ok }),
    .msg (.data allSucceed firstPacket)]

theorem pointer_of_this_boot_twice :
    Along (observe nodeEvent notePointers) WritesHere
      (.boot none fun _ => fun _ => 0, ⟨[], [], false⟩) twoBoots := by
  refine (pointer_of_this_boot _ twoBoots ?_).mpr ?_
  · exact ⟨by decide, by decide, by decide, by decide, by decide, trivial⟩
  · exact ⟨trivial, fun _ _ => rfl, trivial, trivial, fun _ _ => rfl, trivial⟩

/-- The device goes on behind a reset: the packet is written to the partition of the boot
before. -/
theorem pointer_of_earlier_boot :
    ¬ Along (observe nodeEvent notePointers) WritesHere
      (.boot none fun _ => fun _ => 0, ⟨[], [], false⟩)
      [.msg (.status freshStatusEnv { paddedRequest with errorCode := .ok }), .reset,
        .msg (.data { allSucceed with loaded := true, update := some 2 } firstPacket)] := by
  rintro ⟨-, -, hdata, -⟩
  obtain ⟨p, hp, hmem⟩ := hdata (some 1) 0 1024 (List.mem_cons_self ..)
  rw [← Option.some.inj hp] at hmem
  exact absurd hmem (by decide)

end EspMesh
