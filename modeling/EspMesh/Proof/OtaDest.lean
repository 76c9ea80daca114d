import EspMesh.Model.MupgradeRoot
import EspMesh.Model.RootMeshRead

/-! # The devices of an upgrade command

`root_do_ota` clamps the number of addresses it copies, but not the number itself, which is what
`ota_task` counts to.
-/

namespace EspMesh
set_option autoImplicit false
open ByteMem

/-! ## What is wanted -/

/-- The number in the command at `p`. -/
def otaU8Number (m : Mem) (p : ℕ) : ℕ := (m.byte (p + body + otaNumber)).toNat

def otaListed (m : Mem) (p : ℕ) : List Mac :=
  if otaU8Number m p = 0 then [mwifiAddrBroadcast]
  else addrsAt m (p + body + otaNumber + 1) (min (otaU8Number m p) 10)

/-- The `memcpy` of `root_do_ota` into its fresh buffer. -/
def otaDestCopy (m : Mem) (p : ℕ) (garbage : Bytes 61) : Mem :=
  (Mem.mk (fun a => garbage.val.getD a 0) []).store 0
    (m.load (p + body + otaNumber) (min (otaU8Number m p) 10 * mwifiAddrLen + 1))

/-- The list and its length as they are handed on, within the bounds of the buffers. -/
structure OtaDecoded (m : Mem) (p : ℕ) (garbage : Bytes 61) (destData : ℕ → UInt8) : Prop where
  copies : (otaDestCopy m p garbage).Inside 0 61
  list : addrsAt (otaDest destData).2.destAddr 0 (otaDest destData).1 = otaListed m p
  reads : ∀ r ∈ (otaDest destData).2.reads, r < 61
  writes : (otaDest destData).2.destAddr.Inside 0 (mwifiAddrLen * maxMeshSize)

/-! ## The loops of `ota_task` -/

/-- The first `n` bytes behind the number are copied. -/
structure OtaCopied (destData : ℕ → UInt8) (n : ℕ) (d : OtaDest) : Prop where
  m : d.m = n + 1
  bytes : ∀ a < n, d.destAddr.byte a = destData (a + 1)
  reads : ∀ r, r ∈ d.reads ↔ r < n + 1
  writes : d.destAddr.Inside 0 n

section Copies
variable {destData : ℕ → UInt8} {d : OtaDest}

theorem OtaCopied.copy {i j : ℕ} (h : OtaCopied destData (mwifiAddrLen * i + j) d) :
    OtaCopied destData (mwifiAddrLen * i + j + 1) (d.copy destData i j) := by
  obtain ⟨hm, hbytes, hreads, hwrites⟩ := h
  refine ⟨congrArg (· + 1) hm, fun a ha => ?_, fun r => ?_, ?_⟩
  · rw [OtaDest.copy, Mem.store_byte]
    split
    · rename_i hat
      rw [List.length_singleton] at hat
      obtain rfl : a = mwifiAddrLen * i + j := by omega
      rw [Nat.sub_self, hm]
      rfl
    · rename_i hoff
      rw [List.length_singleton] at hoff
      exact hbytes a (by omega)
  · rw [OtaDest.copy, List.mem_cons, hreads, hm]
    omega
  · refine (Mem.inside_store _ _ _ _ _).mpr ⟨⟨Nat.zero_le _, le_rfl⟩, fun s hs => ?_⟩
    exact ⟨Nat.zero_le _, (hwrites s hs).2.trans (Nat.le_succ _)⟩

theorem OtaCopied.copyAddr {i : ℕ} (h : OtaCopied destData (mwifiAddrLen * i) d) :
    OtaCopied destData (mwifiAddrLen * (i + 1)) (d.copyAddr destData i) := by
  have hbytes : ∀ j, OtaCopied destData (mwifiAddrLen * i + j)
      ((List.range j).foldl (OtaDest.copy destData i) d) := by
    intro j
    induction j with
    | zero => exact h
    | succ j ih =>
      rw [List.range_succ, List.foldl_append]
      exact ih.copy
  exact hbytes mwifiAddrLen

theorem otaCopied_addrs (destData : ℕ → UInt8) (num : ℕ) :
    OtaCopied destData (mwifiAddrLen * num)
      ((List.range num).foldl (OtaDest.copyAddr destData) ⟨⟨fun _ => 0, []⟩, 1, [0]⟩) := by
  induction num with
  | zero =>
    refine ⟨rfl, fun a ha => absurd ha (Nat.not_lt_zero a), fun r => ?_, fun s hs => by cases hs⟩
    simp
  | succ num ih =>
    rw [List.range_succ, List.foldl_append]
    exact ih.copyAddr

end Copies

/-! ## The buffer between the tasks -/

theorem otaDestData_byte (m : Mem) (p : ℕ) (garbage : Bytes 61) {a : ℕ}
    (ha : a < min (otaU8Number m p) 10 * mwifiAddrLen + 1) :
    (otaDestData m p garbage).val.getD a 0 = m.byte (p + body + otaNumber + a) := by
  have hnum : (if otaU8Number m p > 10 then 10 else otaU8Number m p) =
      min (otaU8Number m p) 10 := by
    split <;> omega
  have hdata : otaDestData m p garbage = field (m.load (p + body + otaNumber)
      (min (otaU8Number m p) 10 * mwifiAddrLen + 1) ++
        garbage.val.drop (min (otaU8Number m p) 10 * mwifiAddrLen + 1)) 0 61 := by
    rw [← hnum]
    rfl
  have hlen : a < 61 := by
    simp only [mwifiAddrLen] at ha
    omega
  rw [hdata, field_getD _ _ _ _ hlen, Nat.zero_add,
    List.getD_append _ _ _ _ (by rwa [Mem.load_length]), Mem.load_getD _ _ _ _ ha]

theorem otaDestCopy_inside (m : Mem) (p : ℕ) (garbage : Bytes 61) :
    (otaDestCopy m p garbage).Inside 0 61 := by
  refine (Mem.inside_store _ _ _ _ _).mpr ⟨⟨le_rfl, ?_⟩, fun s hs => by cases hs⟩
  rw [Mem.load_length]
  simp only [mwifiAddrLen]
  omega

section Task
variable {m : Mem} {p : ℕ} {t : OtaTask} {garbage : Bytes 61}

theorem destBytes_eq (ht : t.destData = otaDestData m p garbage) (behind : ℕ → UInt8) {a : ℕ}
    (ha : a < min (otaU8Number m p) 10 * mwifiAddrLen + 1) :
    t.destBytes behind a = m.byte (p + body + otaNumber + a) := by
  have hlen : a < 61 := by
    simp only [mwifiAddrLen] at ha
    omega
  rw [OtaTask.destBytes, if_pos hlen, ht, otaDestData_byte m p garbage ha]

/-- No address is given: the one of all devices is filled in. -/
theorem otaDecoded_all (behind : ℕ → UInt8) (ht : t.destData = otaDestData m p garbage)
    (hnum : otaU8Number m p = 0) : OtaDecoded m p garbage (t.destBytes behind) := by
  have hbyte : (t.destBytes behind 0).toNat = 0 :=
    (congrArg UInt8.toNat (destBytes_eq ht behind (Nat.succ_pos _))).trans hnum
  have hdest : otaDest (t.destBytes behind) =
      (1, (List.range mwifiAddrLen).foldl (OtaDest.fill 0) ⟨⟨fun _ => 0, []⟩, 1, [0]⟩) := by
    rw [otaDest, if_pos hbyte, hbyte]
  refine ⟨otaDestCopy_inside m p garbage, ?_, ?_, ?_⟩
  · rw [hdest, otaListed, if_pos hnum]
    decide
  · rw [hdest]
    decide
  · rw [hdest, Mem.Inside]
    decide

theorem otaDest_some (behind : ℕ → UInt8) (ht : t.destData = otaDestData m p garbage)
    (hpos : otaU8Number m p ≠ 0) : otaDest (t.destBytes behind) = (otaU8Number m p,
      (List.range (otaU8Number m p)).foldl (OtaDest.copyAddr (t.destBytes behind))
        ⟨⟨fun _ => 0, []⟩, 1, [0]⟩) := by
  have hbyte : (t.destBytes behind 0).toNat = otaU8Number m p :=
    congrArg UInt8.toNat (destBytes_eq ht behind (Nat.succ_pos _))
  rw [otaDest, hbyte, if_neg hpos]

/-- The addresses of the command, up to ten of them. -/
theorem otaDecoded_some (behind : ℕ → UInt8) (ht : t.destData = otaDestData m p garbage)
    (hpos : otaU8Number m p ≠ 0) (hnum : otaU8Number m p ≤ 10) :
    OtaDecoded m p garbage (t.destBytes behind) := by
  have hdest := otaDest_some behind ht hpos
  obtain ⟨-, hbytes, hreads, hwrites⟩ := otaCopied_addrs (t.destBytes behind) (otaU8Number m p)
  refine ⟨otaDestCopy_inside m p garbage, ?_, fun r hr => ?_, fun s hs => ?_⟩
  · rw [hdest, otaListed, if_neg hpos, Nat.min_eq_left hnum]
    refine addrsAt_congr fun a ha => ?_
    rw [Nat.zero_add, hbytes a (by simp only [mwifiAddrLen]; omega), destBytes_eq ht behind]
    · congr 1
      omega
    · simp only [mwifiAddrLen]
      omega
  · rw [hdest, hreads] at hr
    simp only [mwifiAddrLen] at hr
    omega
  · rw [hdest] at hs
    obtain ⟨hlo, hhi⟩ := hwrites s hs
    refine ⟨hlo, hhi.trans ?_⟩
    simp only [mwifiAddrLen, maxMeshSize]
    omega

/-- The loops go on behind the buffer when the number is greater than ten. -/
theorem not_otaDecoded (behind : ℕ → UInt8) (ht : t.destData = otaDestData m p garbage)
    (hnum : 10 < otaU8Number m p) : ¬ OtaDecoded m p garbage (t.destBytes behind) := by
  intro h
  have hdest := otaDest_some behind ht (by omega)
  have hreads := (otaCopied_addrs (t.destBytes behind) (otaU8Number m p)).reads 61
  have hlt := h.reads 61
  rw [hdest, hreads] at hlt
  have hread : 61 < mwifiAddrLen * otaU8Number m p + 1 := by
    simp only [mwifiAddrLen]
    omega
  exact absurd (hlt hread) (Nat.lt_irrefl 61)

end Task

/-! ## The command -/

theorem otaDestData_congr {m m' : Mem} {p : ℕ} (garbage : Bytes 61)
    (h : ∀ a, p + body ≤ a → m.byte a = m'.byte a) :
    otaDestData m p garbage = otaDestData m' p garbage := by
  have hload : ∀ n, m.load (p + body + otaNumber) n = m'.load (p + body + otaNumber) n := fun n =>
    (Mem.load_eq_iff _ _ _ _ _).mpr fun k _ => h _ (by omega)
  unfold otaDestData
  dsimp only
  rw [h _ (Nat.le_add_right _ _), hload]

/-- What is written in front of the copy does not change the command. -/
theorem rootDoOta_task {configServerIp : List UInt8} {p : ℕ} {e : DoOtaEnv} {io : Io}
    {o : OtaShared} {t : OtaTask}
    (h : (rootDoOta configServerIp p e io o).2.tasks = o.tasks ++ [t]) :
    t.destData = otaDestData io.mem (p + tNode) e.garbage := by
  unfold rootDoOta at h
  dsimp only at h
  split at h
  · simp at h
  split at h
  · simp at h
  split at h
  · have ht := congrArg OtaTask.destData (List.singleton_inj.mp (List.append_cancel_left h))
    refine ht.symm.trans (otaDestData_congr e.garbage fun a ha => ?_)
    rw [Io.modify_mem, Mem.store_byte_off, Mem.fill_byte, if_neg]
    · simp only [tNode, body, mwifiAddrLen] at ha ⊢
      omega
    · simp only [tNode, body, u8Type, List.length_singleton] at ha ⊢
      omega
  · simp at h

/-- **Upgrade command.** What `ota_task` makes of a command is what `root_do_ota` was given, within
the bounds of both buffers, exactly when the command has at most ten addresses. -/
theorem ota_decoding_bounded (configServerIp : List UInt8) (p : ℕ) (e : DoOtaEnv) (io : Io)
    (o : OtaShared) (t : OtaTask) (behind : ℕ → UInt8)
    (h : (rootDoOta configServerIp p e io o).2.tasks = o.tasks ++ [t]) :
    OtaDecoded io.mem (p + tNode) e.garbage (t.destBytes behind) ↔
      otaU8Number io.mem (p + tNode) ≤ 10 := by
  have ht := rootDoOta_task h
  constructor
  · intro hdecoded
    by_contra hnum
    exact not_otaDecoded behind ht (by omega) hdecoded
  · intro hnum
    by_cases hzero : otaU8Number io.mem (p + tNode) = 0
    · exact otaDecoded_all behind ht hzero
    · exact otaDecoded_some behind ht hzero hnum

/-- A command in the first slot for `number` devices. -/
def otaCommand (number : UInt8) : Io :=
  ⟨(Mem.mk (fun _ => 0xff) []).store (tNode + body + otaNumber) [number], []⟩

def otaEnvOk : DoOtaEnv := ⟨true, true, Bytes.const 61 0⟩

/-- The task that is created for a command. -/
def otaTaskOf (number : UInt8) : OtaTask :=
  ⟨0, otaDestData (otaCommand number).mem tNode (Bytes.const 61 0), .waiting, ⟨[], []⟩⟩

theorem otaTaskOf_created (number : UInt8) :
    (rootDoOta [] 0 otaEnvOk (otaCommand number) .boot).2.tasks =
      OtaShared.boot.tasks ++ [otaTaskOf number] := by
  have hcreated : (rootDoOta [] 0 otaEnvOk (otaCommand number) .boot).2.tasks =
      OtaShared.boot.tasks ++ [⟨0, _, .waiting, ⟨[], []⟩⟩] := rfl
  have hdata := rootDoOta_task hcreated
  dsimp only at hdata
  rw [hcreated, hdata]
  rfl

theorem ota_decoding_bounded_ten : OtaDecoded (otaCommand 10).mem tNode (Bytes.const 61 0)
    ((otaTaskOf 10).destBytes fun _ => 0) :=
  (ota_decoding_bounded [] 0 otaEnvOk (otaCommand 10) .boot (otaTaskOf 10) _
    (otaTaskOf_created 10)).mpr (by decide)

/-- A command for eleven devices. -/
theorem ota_decoding_unbounded :
    ¬ ∀ (configServerIp : List UInt8) (p : ℕ) (e : DoOtaEnv) (io : Io) (o : OtaShared)
      (t : OtaTask) (behind : ℕ → UInt8),
      (rootDoOta configServerIp p e io o).2.tasks = o.tasks ++ [t] →
      OtaDecoded io.mem (p + tNode) e.garbage (t.destBytes behind) := by
  intro h
  refine not_otaDecoded (fun _ => 0) rfl ?_
    (h [] 0 otaEnvOk (otaCommand 11) .boot (otaTaskOf 11) (fun _ => 0) (otaTaskOf_created 11))
  decide

end EspMesh
