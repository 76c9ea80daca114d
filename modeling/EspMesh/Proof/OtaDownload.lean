import EspMesh.Library.LeadsTo
import EspMesh.Model.FirmwareDownload
import EspMesh.Model.RootMeshRead

/-! # When the root distributes a firmware

The download is one run of `ota_task`, told stage by stage: the attempts at the connection, the
headers, the chunks. Each stage is left for the next one or for `EXIT`. The retry counter is 20
behind the twentieth attempt whatever it returned, so a connection that only comes then is given
up with a result of zero devices; every other outcome decides as it should.
-/

namespace EspMesh
set_option autoImplicit false
open ByteMem Mem StateTransition LeadsTo

/-- The fresh task `i` is at the call `pc` behind `k` chunks, with `g` as the root's
configuration, and has sent nothing. -/
structure OtaRun.At (i : ℕ) (name : Bytes 32) (pc : OtaPc) (k : ℕ) (g : Option MupgradeConfig)
    (s : OtaRun) : Prop where
  task : ∃ t, s.shared.tasks[i]? = some t ∧ t.pc = pc ∧ t.result = ⟨[], []⟩
  name : s.shared.gOtaFirmwareName = name
  reads : s.reads = k
  config : s.gUpgradeConfig = g
  sent : s.sent = []

def OtaRun.Exits (i : ℕ) (s : OtaRun) : Prop := ∃ name k g, s.At i name .exit k g

def OtaRun.Sends (i : ℕ) (s : OtaRun) : Prop := ∃ name k g, s.At i name .distributing k g

/-- The task has ended, and its only packet counts no device. -/
def OtaRun.Ended (i : ℕ) (s : OtaRun) : Prop :=
  s.pc i = some .deleting ∧ ∃ packet, s.sent = [packet] ∧
    packet[tNode + body]? = some 0 ∧ packet[tNode + body + 1]? = some 0

theorem OtaRun.At.pc_eq {i k : ℕ} {name : Bytes 32} {pc : OtaPc} {g : Option MupgradeConfig}
    {s : OtaRun} (h : s.At i name pc k g) : s.pc i = some pc := by
  obtain ⟨t, ht, hpc, -⟩ := h.task
  rw [OtaRun.pc, ht, Option.map_some, hpc]

theorem OtaRun.create_at (o : OtaShared) (buf : ℕ) (destData : Bytes 61)
    (g : Option MupgradeConfig) :
    (OtaRun.create o buf destData g).At o.tasks.length o.gOtaFirmwareName .waiting 0 g where
  task := ⟨⟨buf, destData, .waiting, ⟨[], []⟩⟩, by simp [OtaRun.create], rfl, rfl⟩
  name := rfl
  reads := rfl
  config := rfl
  sent := rfl

/-- Both counts are zero in the packet of a result that no call has stored. -/
theorem otaResultPacket_empty (gSelfMac : Mac) (j : ℕ)
    (hj : j = tNode + body ∨ j = tNode + body + 1) :
    ((otaResultPacket gSelfMac ⟨[], []⟩).load 0 rootPacketLen)[j]? = some 0 := by
  have hlen : j < ((otaResultPacket gSelfMac ⟨[], []⟩).load 0 rootPacketLen).length := by
    rw [load_length]
    rcases hj with rfl | rfl <;> decide
  rw [List.getElem?_eq_getElem hlen, load_getElem]
  rcases hj with rfl | rfl <;> simp [otaResultPacket, store_byte, u8Type, u8Cmd]

/-! ## One call -/

theorem otaTaskStep_task {gSelfMac : Mac} {o : OtaShared} {i : ℕ} {t : OtaTask} (e : OtaEvent)
    (ht : o.tasks[i]? = some t) :
    (otaTaskStep gSelfMac o i e).1.tasks[i]? = some (t.next e) := by
  have hi : i < o.tasks.length := (List.getElem?_eq_some_iff.mp ht).1
  unfold otaTaskStep
  rw [ht]
  exact List.getElem?_set_self hi

theorem otaTaskStep_name (gSelfMac : Mac) (o : OtaShared) (i : ℕ) (e : OtaEvent) :
    (otaTaskStep gSelfMac o i e).1.gOtaFirmwareName = o.gOtaFirmwareName := by
  unfold otaTaskStep
  split
  · rfl
  · dsimp only
    unfold OtaShared.effect
    split <;> rfl

theorem otaTaskStep_quiet {gSelfMac : Mac} {o : OtaShared} {i : ℕ} {e : OtaEvent}
    (he : e ≠ .finish) : (otaTaskStep gSelfMac o i e).2 = none := by
  unfold otaTaskStep
  split
  · rfl
  · dsimp only
    split
    · exact absurd rfl he
    · rfl

namespace Download
variable {w : Download} {gSelfMac : Mac} {i k : ℕ} {name : Bytes 32} {g : Option MupgradeConfig}

theorem step_eq {s : OtaRun} {t : OtaTask} {e : OtaEvent} {g' : Option MupgradeConfig} {k' : ℕ}
    (ht : s.shared.tasks[i]? = some t)
    (ha : w.answer s.shared.gOtaFirmwareName s.gUpgradeConfig s.reads t.pc = some (e, g', k')) :
    w.step gSelfMac i s = some ⟨(otaTaskStep gSelfMac s.shared i e).1, g', k',
      (otaTaskStep gSelfMac s.shared i e).2.toList ++ s.sent⟩ := by
  unfold step
  simp only [ht, ha]

theorem leads_call {pc pc' : OtaPc} {e : OtaEvent} {g' : Option MupgradeConfig} {k' : ℕ}
    (ha : w.answer name g k pc = some (e, g', k')) (he : e ≠ .finish)
    (hnext : ∀ t : OtaTask, t.pc = pc → (t.next e).pc = pc' ∧ (t.next e).result = t.result) :
    Leads (w.step gSelfMac i) (OtaRun.At i name pc k g) (OtaRun.At i name pc' k' g') := by
  refine Leads.step fun s hs => ?_
  obtain ⟨t, ht, hpc, hresult⟩ := hs.task
  obtain ⟨hpc', hresult'⟩ := hnext t hpc
  refine ⟨_, step_eq ht (by rw [hs.name, hs.config, hs.reads, hpc]; exact ha), ?_⟩
  exact
    { task := ⟨t.next e, otaTaskStep_task e ht, hpc', hresult'.trans hresult⟩
      name := (otaTaskStep_name gSelfMac s.shared i e).trans hs.name
      reads := rfl
      config := rfl
      sent := by rw [otaTaskStep_quiet he, hs.sent]; rfl }

theorem leads_exit : Leads (w.step gSelfMac i) (OtaRun.Exits i) (OtaRun.Ended i) := by
  refine Leads.step fun s ⟨name, k, g, hs⟩ => ?_
  obtain ⟨t, ht, hpc, hresult⟩ := hs.task
  have hsent : (otaTaskStep gSelfMac s.shared i .finish).2 =
      some ((otaResultPacket gSelfMac ⟨[], []⟩).load 0 rootPacketLen) := by
    unfold otaTaskStep
    simp only [ht, hpc, hresult]
  refine ⟨_, step_eq (e := .finish) ht (by rw [hpc]; rfl), ?_, _, ?_,
    otaResultPacket_empty gSelfMac _ (.inl rfl), otaResultPacket_empty gSelfMac _ (.inr rfl)⟩
  · rw [OtaRun.pc, otaTaskStep_task _ ht]
    simp [OtaTask.next, hpc]
  · rw [hsent, hs.sent]
    rfl

/-! ## The connection and the headers -/

theorem next_opened {t : OtaTask} {n : ℕ} (hn : n < 20) (ok : Bool) (ht : t.pc = .opening n) :
    (t.next (.opened ok true)).pc =
        (if n + 1 = 20 then .exit else if ok then .fetching else .opening (n + 1)) ∧
      (t.next (.opened ok true)).result = t.result := by
  simp only [OtaTask.next, ht]
  by_cases hlast : n + 1 = 20
  · simp [hlast]
  · have hmore : n + 1 < 20 := by omega
    cases ok <;> simp [hlast, hmore]

/-- What holds in front of an attempt, behind `n` of them. -/
def Opening (w : Download) (i : ℕ) (name : Bytes 32) (g : Option MupgradeConfig) (n : ℕ)
    (s : OtaRun) : Prop :=
  (n < 20 ∧ ∀ m < n, w.opens m = false) ∧ s.At i name (.opening n) 0 g

/-- The twentieth attempt is counted like a failed one. -/
theorem leads_attempt (n : ℕ) : Leads (w.step gSelfMac i) (w.Opening i name g n) fun s =>
    Decides (∃ n < 19, w.opens n = true) (OtaRun.At i name .fetching 0 g) (OtaRun.Exits i) s ∨
      ∃ j, 20 - j < 20 - n ∧ w.Opening i name g j s := by
  rintro s ⟨⟨hn, hfailed⟩, hs⟩
  have hcall : Leads (w.step gSelfMac i) (OtaRun.At i name (.opening n) 0 g) (OtaRun.At i name
      (if n + 1 = 20 then .exit else if w.opens n then .fetching else .opening (n + 1)) 0 g) :=
    leads_call rfl (by simp) fun t ht => next_opened hn (w.opens n) ht
  obtain ⟨t, hst, ht⟩ := hcall s hs
  refine ⟨t, hst, ?_⟩
  by_cases hlast : n + 1 = 20
  · rw [if_pos hlast] at ht
    have hnone : ¬ ∃ m < 19, w.opens m = true := by
      rintro ⟨m, hm, hopen⟩
      rw [hfailed m (by omega)] at hopen
      cases hopen
    exact .inl (.inr ⟨hnone, name, 0, g, ht⟩)
  · rw [if_neg hlast] at ht
    cases hopen : w.opens n with
    | true =>
      rw [hopen, if_pos rfl] at ht
      exact .inl (.inl ⟨⟨n, by omega, hopen⟩, ht⟩)
    | false =>
      rw [hopen, if_neg (by simp)] at ht
      refine .inr ⟨n + 1, by omega, ⟨by omega, fun m hm => ?_⟩, ht⟩
      rcases Nat.lt_succ_iff_lt_or_eq.mp hm with hm | rfl
      · exact hfailed m hm
      · exact hopen

theorem leads_opening : Leads (w.step gSelfMac i) (OtaRun.At i name (.opening 0) 0 g)
    (Decides (∃ n < 19, w.opens n = true) (OtaRun.At i name .fetching 0 g) (OtaRun.Exits i)) :=
  (Leads.of_imp fun _ hs => ⟨⟨by omega, fun _ hm => absurd hm (by omega)⟩, hs⟩).trans
    (Leads.loop (fun n => 20 - n) leads_attempt 0)

theorem leads_headers : Leads (w.step gSelfMac i) (OtaRun.At i name .fetching 0 g)
    (Decides (w.totalSize ≠ 0) (OtaRun.At i name (.initing w.totalSize) 0 g)
      (OtaRun.Exits i)) := by
  have hcall : Leads (w.step gSelfMac i) (OtaRun.At i name .fetching 0 g) (OtaRun.At i name
      (if w.totalSize = 0 then .reporting else .initing w.totalSize) 0 g) :=
    leads_call rfl (by simp) fun t ht => by simp [OtaTask.next, ht]
  by_cases hsize : w.totalSize = 0
  · rw [if_pos hsize] at hcall
    have hreport : Leads (w.step gSelfMac i) (OtaRun.At i name .reporting 0 g)
        (OtaRun.At i name .exit 0 g) :=
      leads_call rfl (by simp) fun t ht => by simp [OtaTask.next, ht]
    exact (hcall.trans hreport).trans
      (Leads.of_imp fun s hs => .inr ⟨fun hne => hne hsize, name, 0, g, hs⟩)
  · rw [if_neg hsize] at hcall
    exact hcall.trans (Leads.of_imp fun s hs => .inl ⟨hsize, hs⟩)

/-! ## `mupgrade_firmware_init` -/

/-- Both partitions are found, and the update partition is large enough for a known size. -/
structure Fits (w : Download) : Prop where
  running : w.init.running.isSome = true
  update : w.init.update.isSome = true
  size : w.totalSize = otaSizeUnknown ∨ w.totalSize ≤ w.init.updateSize

/-- The configuration behind `k` chunks that have been written. -/
structure Written (w : Download) (k : ℕ) (g : MupgradeConfig) : Prop where
  errorCode : g.status.errorCode = espErr w.init.otaBegin
  totalSize : g.status.totalSize = w.totalSize
  writtenSize : g.status.writtenSize = w.received k

theorem init_ok (name : Bytes 32) (g : Option MupgradeConfig) (hfits : w.Fits)
    (hsize : w.totalSize ≠ 0) : ∃ config,
    (mupgradeFirmwareInit w.init name w.totalSize g).1 = some config ∧
      (mupgradeFirmwareInit w.init name w.totalSize g).2.2 = .ok ∧ w.Written 0 config := by
  obtain ⟨running, hrunning⟩ := Option.isSome_iff_exists.mp hfits.running
  obtain ⟨update, hupdate⟩ := Option.isSome_iff_exists.mp hfits.update
  have hroom : ¬ (w.totalSize ≠ otaSizeUnknown ∧ w.init.updateSize < w.totalSize) := by
    have h := hfits.size
    omega
  unfold mupgradeFirmwareInit
  simp only [hrunning, hupdate, if_neg hsize, if_neg hroom]
  exact ⟨_, rfl, trivial, rfl, rfl, rfl⟩

theorem init_fails (name : Bytes 32) (g : Option MupgradeConfig) (hfits : ¬ w.Fits) :
    (mupgradeFirmwareInit w.init name w.totalSize g).1 = g ∧
      (mupgradeFirmwareInit w.init name w.totalSize g).2.2 ≠ .ok := by
  unfold mupgradeFirmwareInit
  split
  · exact ⟨rfl, by simp⟩
  · split
    · next hrunning hupdate =>
      split
      · exact ⟨rfl, by simp⟩
      · next hroom =>
        refine absurd ⟨by rw [hrunning]; rfl, by rw [hupdate]; rfl, ?_⟩ hfits
        omega
    · exact ⟨rfl, by simp⟩

/-- What holds at the head of the loop over the chunks, behind `k` of them. -/
def Loading (w : Download) (i : ℕ) (name : Bytes 32) (k : ℕ) (s : OtaRun) : Prop :=
  (w.received k < w.totalSize ∧ ∀ j < k, 0 < w.chunk j ∧ w.otaWrite j = none) ∧
    ∃ g, w.Written k g ∧ s.At i name (.downloading (w.received k) w.totalSize) k (some g)

theorem leads_init (hsize : w.totalSize ≠ 0) :
    Leads (w.step gSelfMac i) (OtaRun.At i name (.initing w.totalSize) 0 g)
      (Decides w.Fits (w.Loading i name 0) (OtaRun.Exits i)) := by
  by_cases hfits : w.Fits
  · obtain ⟨config, hinit, hok, hwritten⟩ := init_ok name g hfits hsize
    have hcall : Leads (w.step gSelfMac i) (OtaRun.At i name (.initing w.totalSize) 0 g)
        (OtaRun.At i name (.downloading 0 w.totalSize) 0 (some config)) :=
      leads_call (e := .inited true) (by simp [answer, hinit, hok]) (by simp)
        fun t ht => by simp [OtaTask.next, ht]
    refine hcall.trans (Leads.of_imp fun s hs => .inl ⟨hfits, ⟨?_, ?_⟩, config, hwritten, hs⟩)
    · exact Nat.pos_of_ne_zero hsize
    · exact fun j hj => absurd hj (by omega)
  · obtain ⟨hconfig, hret⟩ := init_fails name g hfits
    have hcall : Leads (w.step gSelfMac i) (OtaRun.At i name (.initing w.totalSize) 0 g)
        (OtaRun.At i name .exit 0 g) :=
      leads_call (e := .inited false) (by simp [answer, hconfig, hret]) (by simp)
        fun t ht => by simp [OtaTask.next, ht]
    exact hcall.trans (Leads.of_imp fun s hs => .inr ⟨hfits, name, 0, g, hs⟩)

/-! ## `mupgrade_firmware_download` -/

theorem espErr_ok (ret : Option ℕ) : espErr ret = .ok ↔ ret = none := by
  cases ret <;> simp [espErr]

theorem finished_ok_iff (e : FirmwareDownloadEnv) (size : ℕ) (config : MupgradeConfig) :
    (mupgradeFirmwareDownloadFinished e size (some config)).2.2 = .ok ↔
      e.otaEnd = none ∧ e.check = none := by
  unfold mupgradeFirmwareDownloadFinished
  cases hend : e.otaEnd with
  | some code => simp [FirmwareDownloadEnv.mdfErrMupgradeFirmwareInvalid]
  | none => cases hcheck : e.check <;> simp [espErr]

theorem download_ok_iff (e : FirmwareDownloadEnv) (config : MupgradeConfig) {size : ℕ}
    (hsize : size ≠ 0) :
    (mupgradeFirmwareDownload e size (some config)).2.2 = .ok ↔
      config.status.errorCode = .ok ∧ e.otaWrite = none ∧
        ((config.status.writtenSize + size) % 4294967296 = config.status.totalSize →
          e.otaEnd = none ∧ e.check = none) := by
  simp only [mupgradeFirmwareDownload, if_neg hsize]
  by_cases herror : config.status.errorCode = .ok
  · rw [if_neg (not_not_intro herror)]
    cases hwrite : e.otaWrite with
    | some code => simp [espErr]
    | none =>
      by_cases hlast : (config.status.writtenSize + size) % 4294967296 = config.status.totalSize
      · simp [hlast, herror, finished_ok_iff]
      · simp [hlast, herror]
  · simp [herror]

theorem received_succ (w : Download) (k : ℕ) :
    w.received k + (w.chunk k).toNat = w.received (k + 1) := rfl

theorem totalSize_lt (w : Download) : w.totalSize < 4294967296 := w.contentLength.isLt

/-- A chunk that is not the last one. -/
theorem download_written {config : MupgradeConfig} (hconfig : w.Written k config)
    (hchunk : 0 < w.chunk k) (hbegin : w.init.otaBegin = none) (hwrite : w.otaWrite k = none)
    (hmore : w.received (k + 1) < w.totalSize) : ∃ config',
    (mupgradeFirmwareDownload (w.env k) (w.chunk k).toNat (some config)).1 = some config' ∧
      w.Written (k + 1) config' := by
  have herror : config.status.errorCode = .ok := by rw [hconfig.errorCode, hbegin]; rfl
  have hwritten : (config.status.writtenSize + (w.chunk k).toNat) % 4294967296 =
      w.received (k + 1) := by
    rw [hconfig.writtenSize, received_succ, Nat.mod_eq_of_lt (hmore.trans w.totalSize_lt)]
  have hlast : ¬ (config.status.writtenSize + (w.chunk k).toNat) % 4294967296 =
      config.status.totalSize := by
    rw [hwritten, hconfig.totalSize]
    exact Nat.ne_of_lt hmore
  have hsize : (w.chunk k).toNat ≠ 0 := by omega
  unfold mupgradeFirmwareDownload
  simp only [if_neg hsize, herror, ne_eq, not_true_eq_false, if_false, env, hwrite,
    Option.isSome_none, Bool.false_eq_true, if_neg hlast]
  exact ⟨_, rfl, by rw [hbegin]; rfl, hconfig.totalSize, hwritten⟩

/-! ## The loop over the chunks -/

theorem totalSize_eq (h : 0 < w.contentLength.toInt) :
    (w.totalSize : ℤ) = w.contentLength.toInt := by
  have hlt := w.contentLength.isLt
  rw [BitVec.toInt_eq_toNat_cond] at h ⊢
  unfold totalSize
  split at h <;> split <;> omega

theorem received_mono {j : ℕ} (h : k ≤ j) : w.received k ≤ w.received j := by
  induction j, h using Nat.le_induction with
  | base => exact le_rfl
  | succ j _ ih => exact ih.trans (Nat.le_add_right _ _)

theorem next_chunk {t : OtaTask} {recvSize totalSize : ℕ} (size : ℤ) (ok : Bool)
    (ht : t.pc = .downloading recvSize totalSize) :
    (t.next (.chunk size ok)).pc =
        (if 0 < size ∧ ok = true then
          if recvSize + size.toNat < totalSize then .downloading (recvSize + size.toNat) totalSize
          else .distributing
        else .exit) ∧
      (t.next (.chunk size ok)).result = t.result := by
  simp only [OtaTask.next, ht]
  by_cases hsize : size ≤ 0
  · simp [hsize, not_lt.mpr hsize]
  · cases ok with
    | false => simp [hsize]
    | true =>
      have hpos : 0 < size := by omega
      by_cases hmore : recvSize + size.toNat < totalSize <;> simp [hsize, hpos, hmore]

/-- When a read has returned something there was something left, so it has not gone past the
end. -/
theorem received_le (hw : w.ReadsWithin) (hchunk : 0 < w.chunk k) :
    0 < w.contentLength.toInt ∧ w.received (k + 1) ≤ w.totalSize := by
  have hread := hw k
  have hcontent : 0 < w.contentLength.toInt := by omega
  have hsize := totalSize_eq hcontent
  refine ⟨hcontent, ?_⟩
  rw [← received_succ]
  omega

theorem stores_of_end (hw : w.ReadsWithin) (hfits : w.Fits)
    (hchunks : ∀ j ≤ k, 0 < w.chunk j ∧ w.otaWrite j = none)
    (hend : w.totalSize ≤ w.received (k + 1)) (hbegin : w.init.otaBegin = none)
    (hfinish : w.otaEnd = none ∧ w.check = none) : w.Stores := by
  obtain ⟨hcontent, -⟩ := received_le hw (hchunks k le_rfl).1
  have hsize := totalSize_eq hcontent
  have hearlier (j : ℕ) (hj : w.received j < w.totalSize) : j ≤ k := by
    by_contra hlate
    have hpast : w.received (k + 1) ≤ w.received j := received_mono (by omega)
    omega
  exact
    { content := hcontent
      running := hfits.running
      update := hfits.update
      fits := by
        have hroom := hfits.size
        have hint : w.contentLength.toInt < 2 ^ 31 := BitVec.toInt_lt
        unfold otaSizeUnknown at hroom
        omega
      begins := hbegin
      chunks := fun j hj => (hchunks j (hearlier j hj)).1
      writes := fun j hj => (hchunks j (hearlier j hj)).2
      ends := hfinish.1
      checks := hfinish.2 }

theorem leads_empty (hchunk : w.chunk k ≤ 0) : Leads (w.step gSelfMac i)
    (OtaRun.At i name (.downloading (w.received k) w.totalSize) k g) (OtaRun.Exits i) := by
  have hcall : Leads (w.step gSelfMac i)
      (OtaRun.At i name (.downloading (w.received k) w.totalSize) k g)
      (OtaRun.At i name .exit (k + 1) g) :=
    leads_call (by simp only [answer, if_pos hchunk]; rfl) (by simp) fun t ht => by
      simpa [not_lt.mpr hchunk] using next_chunk (w.chunk k) true ht
  exact hcall.trans (Leads.of_imp fun s hs => ⟨name, k + 1, g, hs⟩)

theorem leads_filled (config : MupgradeConfig) (hchunk : 0 < w.chunk k) :
    Leads (w.step gSelfMac i)
      (OtaRun.At i name (.downloading (w.received k) w.totalSize) k (some config))
      (OtaRun.At i name
        (if (mupgradeFirmwareDownload (w.env k) (w.chunk k).toNat (some config)).2.2 = .ok then
          if w.received (k + 1) < w.totalSize then
            .downloading (w.received (k + 1)) w.totalSize
          else .distributing
        else .exit)
        (k + 1) (mupgradeFirmwareDownload (w.env k) (w.chunk k).toNat (some config)).1) := by
  refine leads_call (by simp only [answer, if_neg (not_le.mpr hchunk)]; rfl) (by simp)
    fun t ht => ?_
  refine (next_chunk (w.chunk k) _ ht).imp_left fun hpc => hpc.trans ?_
  by_cases hok : (mupgradeFirmwareDownload (w.env k) (w.chunk k).toNat (some config)).2.2 = .ok
  · rw [if_pos ⟨hchunk, by simpa using hok⟩, if_pos hok, received_succ]
  · rw [if_neg (by simp [hok]), if_neg hok]

/-- One turn: the chunk is the last one, or there is a next turn, or the task gives up. -/
theorem leads_chunk (hw : w.ReadsWithin) (hfits : w.Fits) (k : ℕ) :
    Leads (w.step gSelfMac i) (w.Loading i name k) fun s =>
      Decides w.Stores (OtaRun.Sends i) (OtaRun.Exits i) s ∨
        ∃ j, w.totalSize - w.received j < w.totalSize - w.received k ∧ w.Loading i name j s := by
  rintro s ⟨⟨hmore, hbefore⟩, config, hconfig, hs⟩
  by_cases hchunk : w.chunk k ≤ 0
  · obtain ⟨t, hst, ht⟩ := leads_empty hchunk s hs
    have hnot : ¬ w.Stores := fun h => not_lt.mpr hchunk (h.chunks k hmore)
    exact ⟨t, hst, .inl (.inr ⟨hnot, ht⟩)⟩
  have hpos : 0 < w.chunk k := not_le.mp hchunk
  have hsize : (w.chunk k).toNat ≠ 0 := by omega
  have hdown := download_ok_iff (w.env k) config hsize
  rw [hconfig.errorCode, hconfig.writtenSize, hconfig.totalSize, espErr_ok] at hdown
  obtain ⟨t, hst, ht⟩ := leads_filled config hpos s hs
  refine ⟨t, hst, ?_⟩
  by_cases hok : (mupgradeFirmwareDownload (w.env k) (w.chunk k).toNat (some config)).2.2 = .ok
  · obtain ⟨hbegin, hwrite, hfinish⟩ := hdown.mp hok
    have hchunks : ∀ j ≤ k, 0 < w.chunk j ∧ w.otaWrite j = none := by
      intro j hj
      rcases Nat.lt_or_eq_of_le hj with hj | rfl
      · exact hbefore j hj
      · exact ⟨hpos, hwrite⟩
    rw [if_pos hok] at ht
    by_cases hagain : w.received (k + 1) < w.totalSize
    · obtain ⟨config', hwritten', hconfig'⟩ := download_written hconfig hpos hbegin hwrite hagain
      rw [if_pos hagain, hwritten'] at ht
      refine .inr ⟨k + 1, ?_, ⟨hagain, fun j hj => hchunks j (by omega)⟩, config', hconfig', ht⟩
      have hgrows := w.received_succ k
      omega
    · rw [if_neg hagain] at ht
      have hend : w.received (k + 1) = w.totalSize :=
        le_antisymm (received_le hw hpos).2 (not_lt.mp hagain)
      have hfinished := hfinish (by
        rw [received_succ, hend, Nat.mod_eq_of_lt w.totalSize_lt])
      have hstores := stores_of_end hw hfits hchunks hend.ge hbegin hfinished
      exact .inl (.inl ⟨hstores, name, k + 1, _, ht⟩)
  · rw [if_neg hok] at ht
    have hnot : ¬ w.Stores := fun h => hok <| hdown.mpr
      ⟨h.begins, h.writes k hmore, fun _ => ⟨h.ends, h.checks⟩⟩
    exact .inl (.inr ⟨hnot, name, k + 1, _, ht⟩)

theorem leads_chunks (hw : w.ReadsWithin) (hfits : w.Fits) :
    Leads (w.step gSelfMac i) (w.Loading i name 0)
      (Decides w.Stores (OtaRun.Sends i) (OtaRun.Exits i)) :=
  Leads.loop (fun k => w.totalSize - w.received k) (leads_chunk hw hfits) 0

/-! ## The whole run -/

theorem Stores.fits_partition (h : w.Stores) : w.totalSize ≠ 0 ∧ w.Fits := by
  have hsize := totalSize_eq h.content
  have hcontent := h.content
  have hfits := h.fits
  exact ⟨by omega, h.running, h.update, .inr (by omega)⟩

theorem leads_run (hw : w.ReadsWithin) :
    Leads (w.step gSelfMac i) (OtaRun.At i name .waiting 0 g)
      (Decides ((∃ n < 19, w.opens n = true) ∧ w.Stores) (OtaRun.Sends i) (OtaRun.Exits i)) := by
  have hclient : Leads (w.step gSelfMac i) (OtaRun.At i name .waiting 0 g)
      (OtaRun.At i name (.opening 0) 0 g) :=
    leads_call rfl (by simp) fun t ht => by simp [OtaTask.next, ht]
  have hstages := (hclient.trans leads_opening).decides fun _ =>
    leads_headers.decides fun hsize =>
      (leads_init hsize).decides fun hfits => leads_chunks hw hfits
  refine hstages.trans (Leads.of_imp fun s hs => ?_)
  have hcond : ((∃ n < 19, w.opens n = true) ∧ w.totalSize ≠ 0 ∧ w.Fits ∧ w.Stores) ↔
      (∃ n < 19, w.opens n = true) ∧ w.Stores :=
    ⟨fun h => ⟨h.1, h.2.2.2⟩, fun h => ⟨h.1, h.2.fits_partition.1, h.2.fits_partition.2, h.2⟩⟩
  unfold Decides at hs
  rwa [hcond] at hs

theorem step_stopped {s : OtaRun} {pc : OtaPc} (hs : s.pc i = some pc)
    (hpc : pc = .distributing ∨ pc = .deleting) : w.step gSelfMac i s = none := by
  obtain ⟨t, ht, rfl⟩ := Option.map_eq_some_iff.mp hs
  unfold step
  rcases hpc with hpc | hpc <;> simp only [ht, hpc, answer]

theorem leads_stop (gSelfMac : Mac) (hw : w.ReadsWithin) :
    Leads (w.step gSelfMac i) (OtaRun.At i name .waiting 0 g)
      (Decides ((∃ n < 19, w.opens n = true) ∧ w.Stores) (OtaRun.Sends i) (OtaRun.Ended i)) := by
  refine (leads_run hw).trans fun s hs => ?_
  rcases hs with hs | ⟨hnot, hexit⟩
  · exact ⟨s, .refl, .inl hs⟩
  · obtain ⟨t, hst, ht⟩ := leads_exit s hexit
    exact ⟨t, hst, .inr ⟨hnot, ht⟩⟩

theorem stopped {p : Prop} (s : OtaRun) (hs : Decides p (OtaRun.Sends i) (OtaRun.Ended i) s) :
    w.step gSelfMac i s = none := by
  rcases hs with ⟨-, _, _, _, hsends⟩ | ⟨-, hended, -⟩
  · exact step_stopped hsends.pc_eq (.inl rfl)
  · exact step_stopped hended (.inr rfl)

variable {s : OtaRun}

theorem distributes_iff (gSelfMac : Mac) (hw : w.ReadsWithin) (hs : s.At i name .waiting 0 g) :
    w.Distributes gSelfMac i s ↔ (∃ n < 19, w.opens n = true) ∧ w.Stores := by
  constructor
  · rintro ⟨t, hst, hpc⟩
    have hstop := (leads_stop gSelfMac hw).stops_only stopped hs hst (step_stopped hpc (.inl rfl))
    rcases hstop with ⟨h, -⟩ | ⟨-, hended, -⟩
    · exact h
    · rw [hpc] at hended
      cases hended
  · intro h
    obtain ⟨t, hst, ⟨-, _, _, _, hsends⟩ | ⟨hnot, -⟩⟩ := leads_stop gSelfMac hw s hs
    · exact ⟨t, hst, hsends.pc_eq⟩
    · exact absurd h hnot

theorem endsEmpty_of_not (gSelfMac : Mac) (hw : w.ReadsWithin) (hs : s.At i name .waiting 0 g)
    (hnot : ¬ ((∃ n < 19, w.opens n = true) ∧ w.Stores)) : w.EndsEmpty gSelfMac i s := by
  obtain ⟨t, ht, ⟨h, -⟩ | ⟨-, hpc, packet, hsent, hcounts⟩⟩ :=
    (leads_stop gSelfMac hw).ends stopped hs
  · exact absurd h hnot
  · exact ⟨t, ht, hpc, packet, by rw [hsent, hs.sent], hcounts⟩

/-- Twenty attempts are nineteen and the last. -/
theorem works_iff : w.Works ↔
    ((∃ n < 19, w.opens n = true) ∧ w.Stores) ∨ (w.OpensLast ∧ w.Stores) := by
  unfold Works OpensLast
  constructor
  · rintro ⟨⟨n, hn, hopen⟩, hstores⟩
    by_cases hearly : ∃ n < 19, w.opens n = true
    · exact .inl ⟨hearly, hstores⟩
    · have hfailed : ∀ m < 19, w.opens m = false := fun m hm =>
        Bool.eq_false_iff.mpr fun h => hearly ⟨m, hm, h⟩
      have hlast : n = 19 := by
        by_contra hne
        exact hearly ⟨n, by omega, hopen⟩
      exact .inr ⟨⟨hfailed, hlast ▸ hopen⟩, hstores⟩
  · rintro (⟨⟨n, hn, hopen⟩, hstores⟩ | ⟨⟨-, hopen⟩, hstores⟩)
    · exact ⟨⟨n, by omega, hopen⟩, hstores⟩
    · exact ⟨⟨19, by omega, hopen⟩, hstores⟩

theorem OpensLast.not_early (h : w.OpensLast) : ¬ ∃ n < 19, w.opens n = true := by
  rintro ⟨n, hn, hopen⟩
  rw [h.1 n hn] at hopen
  cases hopen

/-! ## A firmware of one byte -/

/-- All goes well behind the connection. -/
def oneByte (opens : ℕ → Bool) : Download where
  opens := opens
  contentLength := 1
  reported := 0
  init := ⟨some 0, some 1, 1, none, 0⟩
  chunk := fun k => if k = 0 then 1 else 0
  mdfErrMupgradeBase := 0
  otaWrite := fun _ => none
  otaEnd := none
  check := none

theorem oneByte_within (opens : ℕ → Bool) : (oneByte opens).ReadsWithin := by
  rintro (_ | k)
  · show (1 : ℤ) ≤ max 0 ((1 : BitVec 32).toInt - (0 : ℕ))
    decide
  · exact le_max_left 0 _

theorem oneByte_stores (opens : ℕ → Bool) : (oneByte opens).Stores where
  content := show 0 < (1 : BitVec 32).toInt by decide
  running := rfl
  update := rfl
  fits := show (1 : BitVec 32).toInt ≤ (1 : ℕ) by decide
  begins := rfl
  chunks := by
    rintro (_ | k) hk
    · exact Int.one_pos
    · have hfirst : (oneByte opens).received 1 ≤ (oneByte opens).received (k + 1) :=
        received_mono (by omega)
      have hall : (oneByte opens).received 1 = (oneByte opens).totalSize := rfl
      omega
  writes := fun _ _ => rfl
  ends := rfl
  checks := rfl

end Download

open Download

/-- **Distribution follows the download.** The task calls `mupgrade_firmware_send` exactly when
the download worked, and else ends with a result of no devices: as long as it is not the twentieth
attempt, the only one to succeed, that the firmware comes from. -/
theorem distribution_follows_download (w : Download) (hw : w.ReadsWithin) (gSelfMac : Mac)
    (o : OtaShared) (buf : ℕ) (destData : Bytes 61) (g : Option MupgradeConfig) :
    ((w.Distributes gSelfMac o.tasks.length (.create o buf destData g) ↔ w.Works) ∧
        (¬ w.Works → w.EndsEmpty gSelfMac o.tasks.length (.create o buf destData g))) ↔
      ¬ (w.OpensLast ∧ w.Stores) := by
  have hstart := OtaRun.create_at o buf destData g
  have hsends := distributes_iff gSelfMac hw hstart
  have hends := endsEmpty_of_not gSelfMac hw hstart
  rw [works_iff]
  constructor
  · rintro ⟨hiff, -⟩ hlast
    exact hlast.1.not_early (hsends.mp (hiff.mpr (.inr hlast))).1
  · intro hlast
    rw [or_iff_left hlast]
    exact ⟨hsends, hends⟩

/-- The third attempt succeeds, and the content comes in three chunks. -/
def threeChunks (otaWrite : Option ℕ) : Download where
  opens := (· = 2)
  contentLength := 10
  reported := 0
  init := ⟨some 0, some 1, 16, none, 0⟩
  chunk := fun k => if k = 0 then 3 else if k = 1 then 4 else if k = 2 then 3 else 0
  mdfErrMupgradeBase := 0
  otaWrite := fun k => if k = 1 then otaWrite else none
  otaEnd := none
  check := none

theorem threeChunks_within (otaWrite : Option ℕ) : (threeChunks otaWrite).ReadsWithin := by
  rintro (_ | _ | _ | k)
  · show (3 : ℤ) ≤ max 0 ((10 : BitVec 32).toInt - (0 : ℕ))
    decide
  · show (4 : ℤ) ≤ max 0 ((10 : BitVec 32).toInt - (3 : ℕ))
    decide
  · show (3 : ℤ) ≤ max 0 ((10 : BitVec 32).toInt - (7 : ℕ))
    decide
  · exact le_max_left 0 _

theorem threeChunks_stores : (threeChunks none).Stores where
  content := show 0 < (10 : BitVec 32).toInt by decide
  running := rfl
  update := rfl
  fits := show (10 : BitVec 32).toInt ≤ (16 : ℕ) by decide
  begins := rfl
  chunks := by
    rintro (_ | _ | _ | k) hk
    · exact show (0 : ℤ) < 3 by decide
    · exact show (0 : ℤ) < 4 by decide
    · exact show (0 : ℤ) < 3 by decide
    · have hfirst : (threeChunks none).received 3 ≤
          (threeChunks none).received (k + 1 + 1 + 1) := received_mono (by omega)
      have hall : (threeChunks none).received 3 = (threeChunks none).totalSize := rfl
      omega
  writes := fun _ _ => ite_self _
  ends := rfl
  checks := rfl

/-- What an earlier command has left behind. -/
def oneTaskGone : OtaShared := (OtaRun.create .boot 0 (Bytes.const 61 0) none).shared

/-- The download of the second task ends with a packet of zero counts when the second chunk is not
written, and is distributed when it is. -/
theorem distribution_follows_download_chunks :
    (threeChunks (some 5)).EndsEmpty (macOf 1) 1
        (.create oneTaskGone 0 (Bytes.const 61 0) none) ∧
      (threeChunks none).Distributes (macOf 1) 1
        (.create oneTaskGone 0 (Bytes.const 61 0) none) := by
  have hearly (otaWrite : Option ℕ) : ¬ (threeChunks otaWrite).OpensLast := fun h =>
    absurd (h.1 2 (by decide)) Bool.noConfusion
  have hfails := (distribution_follows_download (threeChunks (some 5)) (threeChunks_within _)
    (macOf 1) oneTaskGone 0 (Bytes.const 61 0) none).mpr fun h => hearly _ h.1
  have hworks := (distribution_follows_download (threeChunks none) (threeChunks_within _)
    (macOf 1) oneTaskGone 0 (Bytes.const 61 0) none).mpr fun h => hearly _ h.1
  refine ⟨hfails.2 fun h => ?_, hworks.1.mpr ⟨⟨2, by decide, rfl⟩, threeChunks_stores⟩⟩
  exact absurd (h.2.writes 1 (by decide)) (by decide)

/-- Nineteen attempts fail and the twentieth succeeds: the download works, but nothing is
distributed. -/
theorem last_attempt_lost : (oneByte (· = 19)).ReadsWithin ∧
    ¬ (((oneByte (· = 19)).Distributes (macOf 1) 0 (.create .boot 0 (Bytes.const 61 0) none) ↔
        (oneByte (· = 19)).Works) ∧
      (¬ (oneByte (· = 19)).Works →
        (oneByte (· = 19)).EndsEmpty (macOf 1) 0 (.create .boot 0 (Bytes.const 61 0) none))) := by
  refine ⟨oneByte_within _, fun ⟨hiff, _⟩ => ?_⟩
  have hworks : (oneByte (· = 19)).Works := ⟨⟨19, by decide, rfl⟩, oneByte_stores _⟩
  obtain ⟨n, hn, hopen⟩ := ((distributes_iff (macOf 1) (oneByte_within _)
    (OtaRun.create_at .boot 0 (Bytes.const 61 0) none)).mp (hiff.mpr hworks)).1
  have h19 : n = 19 := of_decide_eq_true hopen
  omega

end EspMesh
