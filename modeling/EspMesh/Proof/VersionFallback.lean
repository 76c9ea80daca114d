import Mathlib.Data.Nat.ModEq
import EspMesh.Library.StepRuns
import EspMesh.Model.VersionFallback

/-! # Falling back

The count in the flash is that of the starts in a row, less those before the last fallback. So a
device falls back at each `CONFIG_MUPGRADE_RESTART_COUNT`-th start in a row, and a version that
keeps running is kept.
-/

namespace EspMesh
set_option autoImplicit false
open StepRuns

variable {c : FallbackConfig} {t : PartitionTable} {d : FallbackDevice} {e : StartEnv}

/-- No call of the start fails. -/
structure StartEnv.Works (e : StartEnv) : Prop where
  load : e.infoLoad = true
  save : e.infoSave = true
  erase : e.infoErase = true
  create : e.timerCreate = true
  start : e.timerStart = true

def StartEvent.Works : StartEvent → Prop
  | .start e => e.Works
  | .timeout infoErase => infoErase = true

def rowNext (n : ℕ) : StartEvent → ℕ
  | .start e => if e.resetReason.countsAnew then 1 else n + 1
  | .timeout _ => 0

/-- The starts in a row: those behind the last timeout, from the last power-on on. -/
def startsInRow (es : List StartEvent) : ℕ := es.foldl rowNext 0

/-! ## The count -/

/-- Without a timer there is no count, and else it is that of the starts in a row. -/
structure Counts (c : FallbackConfig) (d : FallbackDevice) (n : ℕ) : Prop where
  count : (d.restartCount.getD 0).toNat = n % c.mupgradeRestartCount.toNat
  none : d.timer = false → d.restartCount = none

theorem restartTrigger_eq (h : e.Works) (stored : Option UInt32) :
    restartTrigger c e stored =
      if e.count stored < c.mupgradeRestartCount then ⟨some (e.count stored), true, false⟩
      else ⟨none, true, true⟩ := by
  simp only [restartTrigger, h.save, h.create, h.start, h.erase, not_true_eq_false, if_false,
    if_true]

/-- A start counts one more. -/
theorem count_eq {stored : Option UInt32} {n : ℕ} (hpos : 0 < c.mupgradeRestartCount)
    (h : e.Works) (hn : (stored.getD 0).toNat = n % c.mupgradeRestartCount.toNat) :
    0 < (e.count stored).toNat ∧ (e.count stored).toNat ≤ c.mupgradeRestartCount.toNat ∧
      (e.count stored).toNat ≡ rowNext n (.start e) [MOD c.mupgradeRestartCount.toNat] := by
  have hpos' : 0 < c.mupgradeRestartCount.toNat := UInt32.lt_iff_toNat_lt.mp hpos
  have hlt := Nat.mod_lt n hpos'
  have hmax := c.mupgradeRestartCount.toNat_lt
  rw [StartEnv.count, rowNext]
  cases e.resetReason.countsAnew with
  | true =>
    rw [if_pos rfl, if_pos rfl]
    exact ⟨Nat.one_pos, hpos', Nat.ModEq.refl 1⟩
  | false =>
    rw [if_neg Bool.false_ne_true, if_neg Bool.false_ne_true, h.load, if_pos rfl,
      UInt32.toNat_add, UInt32.toNat_one, Nat.mod_eq_of_lt (by omega), hn]
    exact ⟨Nat.succ_pos _, hlt, (Nat.mod_modEq n _).add_right 1⟩

/-- It is the last one exactly when it is a multiple. -/
theorem lt_or_dvd {k m n : ℕ} (hk : 0 < k) (hle : k ≤ m) (h : k ≡ n [MOD m]) :
    k < m ∧ k = n % m ∧ ¬ m ∣ n ∨ k = m ∧ m ∣ n := by
  obtain hlt | rfl := Nat.lt_or_eq_of_le hle
  · have hmod : k = n % m := by
      rw [← h]
      exact (Nat.mod_eq_of_lt hlt).symm
    refine Or.inl ⟨hlt, hmod, fun hdvd => ?_⟩
    rw [Nat.mod_eq_zero_of_dvd hdvd] at hmod
    omega
  · exact Or.inr ⟨rfl, Nat.modEq_zero_iff_dvd.mp ((Nat.mod_self k).symm.trans h).symm⟩

/-- What becomes of a device in which there were enough starts. -/
def fallenBack (c : FallbackConfig) (t : PartitionTable) (e : StartEnv) (d : FallbackDevice) :
    FallbackDevice :=
  match mupgradeVersionFallback c t d.boot e with
  | .ok p => ⟨none, false, d.boot, p⟩
  | .error _ => ⟨none, true, d.boot, d.boot⟩

theorem fallbackStep_start (he : e.Works) :
    fallbackStep c t d (.start e) =
      if e.count d.restartCount < c.mupgradeRestartCount then
        ⟨some (e.count d.restartCount), true, d.boot, d.boot⟩
      else fallenBack c t e d := by
  rw [fallbackStep, mupgradeVersionFallbackTask, restartTrigger_eq he]
  split <;> rfl

theorem fallenBack_restartCount : (fallenBack c t e d).restartCount = none := by
  unfold fallenBack
  split <;> rfl

/-- A start at which the device does not fall back, and one at which it does. -/
theorem start_cases {n : ℕ} (hpos : 0 < c.mupgradeRestartCount) (he : e.Works)
    (h : Counts c d n) :
    (e.count d.restartCount < c.mupgradeRestartCount ∧
      (e.count d.restartCount).toNat = rowNext n (.start e) % c.mupgradeRestartCount.toNat ∧
      ¬ c.mupgradeRestartCount.toNat ∣ rowNext n (.start e)) ∨
    (¬ e.count d.restartCount < c.mupgradeRestartCount ∧
      c.mupgradeRestartCount.toNat ∣ rowNext n (.start e)) := by
  obtain ⟨hcount, hle, hmod⟩ := count_eq hpos he h.count
  rw [UInt32.lt_iff_toNat_lt]
  obtain ⟨hlt, heq, hdvd⟩ | ⟨heq, hdvd⟩ := lt_or_dvd hcount hle hmod
  · exact Or.inl ⟨hlt, heq, hdvd⟩
  · exact Or.inr ⟨heq.not_lt, hdvd⟩

theorem Counts.step {n : ℕ} {ev : StartEvent} (hpos : 0 < c.mupgradeRestartCount)
    (h : Counts c d n) (hev : ev.Works) : Counts c (fallbackStep c t d ev) (rowNext n ev) := by
  cases ev with
  | start e =>
    rw [fallbackStep_start hev]
    obtain ⟨hlt, hcount, -⟩ | ⟨hnot, hdvd⟩ := start_cases hpos hev h
    · rw [if_pos hlt]
      exact ⟨hcount, fun htimer => Bool.noConfusion htimer⟩
    · rw [if_neg hnot]
      refine ⟨?_, fun _ => fallenBack_restartCount⟩
      rw [fallenBack_restartCount, Nat.mod_eq_zero_of_dvd hdvd]
      rfl
  | timeout infoErase =>
    obtain rfl : infoErase = true := hev
    have hzero := (Nat.zero_mod c.mupgradeRestartCount.toNat).symm
    rw [fallbackStep, rowNext]
    by_cases htimer : d.timer = true
    · rw [if_pos htimer]
      exact ⟨hzero, fun _ => rfl⟩
    · have hnone := h.none (Bool.eq_false_iff.mpr htimer)
      rw [if_neg htimer]
      refine ⟨?_, fun _ => hnone⟩
      rw [hnone]
      exact hzero

theorem Counts.run {n : ℕ} {es : List StartEvent} (hpos : 0 < c.mupgradeRestartCount)
    (h : Counts c d n) (hes : ∀ ev ∈ es, ev.Works) :
    Counts c (run (fallbackStep c t) d es) (es.foldl rowNext n) := by
  induction es generalizing d n with
  | nil => exact h
  | cons ev es ih =>
    obtain ⟨hev, hes⟩ := List.forall_mem_cons.mp hes
    exact ih (h.step hpos hev) hes

/-- A device whose count has been erased. -/
theorem counts_erased {es : List StartEvent} (hpos : 0 < c.mupgradeRestartCount)
    (hd : d.restartCount = none) (hes : ∀ ev ∈ es, ev.Works) :
    Counts c (run (fallbackStep c t) d es) (startsInRow es) := by
  refine Counts.run hpos ⟨?_, fun _ => hd⟩ hes
  rw [hd, Nat.zero_mod]
  rfl

/-! ## A version that keeps running -/

/-- The device does not restart from `p` before the time is up, unless it is switched off. -/
def Outlasts (p : EspPartition) (d : FallbackDevice) : StartEvent → Prop
  | .start e => d.running = p → e.resetReason.countsAnew = true ∨ d.timer = false
  | .timeout _ => True

structure Settled (p : EspPartition) (d : FallbackDevice) : Prop where
  boot : d.boot = p
  none : d.timer = false → d.restartCount = none
  running : d.running ≠ p → d.timer = false

theorem count_eq_one {stored : Option UInt32}
    (h : e.resetReason.countsAnew = true ∨ stored = none) : e.count stored = 1 := by
  rw [StartEnv.count]
  obtain hanew | rfl := h
  · rw [if_pos hanew]
  · rw [Option.getD_none, ite_self, UInt32.zero_add, ite_self]

theorem Settled.step {p : EspPartition} {ev : StartEvent} (hmany : 1 < c.mupgradeRestartCount)
    (h : Settled p d) (hev : ev.Works) (hlasts : Outlasts p d ev) :
    Settled p (fallbackStep c t d ev) := by
  cases ev with
  | start e =>
    have hone : e.count d.restartCount = 1 := by
      apply count_eq_one
      by_cases hrunning : d.running = p
      · exact (hlasts hrunning).imp_right h.none
      · exact Or.inr (h.none (h.running hrunning))
    rw [fallbackStep_start hev, hone, if_pos hmany]
    exact ⟨h.boot, fun htimer => Bool.noConfusion htimer, fun hne => absurd h.boot hne⟩
  | timeout infoErase =>
    obtain rfl : infoErase = true := hev
    rw [fallbackStep]
    split
    · exact ⟨h.boot, fun _ => rfl, fun _ => rfl⟩
    · exact h

/-! ## Main results -/

theorem startsInRow_start (es : List StartEvent) (e : StartEnv) :
    startsInRow (es ++ [.start e]) = rowNext (startsInRow es) (.start e) := List.foldl_append

/-- **A device falls back at each `CONFIG_MUPGRADE_RESTART_COUNT`-th start in a row**, and at no
other. -/
theorem restart_triggers_iff {es : List StartEvent} (hpos : 0 < c.mupgradeRestartCount)
    (hd : d.restartCount = none) (hes : ∀ ev ∈ es, ev.Works) (he : e.Works) :
    (restartTrigger c e (run (fallbackStep c t) d es).restartCount).ret = true ↔
      c.mupgradeRestartCount.toNat ∣ startsInRow (es ++ [.start e]) := by
  have hcounts : Counts c (run (fallbackStep c t) d es) (startsInRow es) :=
    counts_erased hpos hd hes
  rw [restartTrigger_eq he, startsInRow_start]
  obtain ⟨hlt, -, hdvd⟩ | ⟨hnot, hdvd⟩ := start_cases hpos he hcounts
  · rw [if_pos hlt]
    exact iff_of_false Bool.false_ne_true hdvd
  · rw [if_neg hnot]
    exact iff_of_true rfl hdvd

/-- `partitions.csv` has no factory version, and two partitions for others. -/
def ota0 : EspPartition := ⟨65536, 1843200, by decide⟩

def ota1 : EspPartition := ⟨1966080, 1843200, by decide⟩

def twoOta : PartitionTable where
  factory := none
  nextUpdate p := some (if p.address = ota0.address then ota1 else ota0)

/-- A start behind a crash. -/
def crashStart : StartEnv where
  resetReason := .other
  infoLoad := true
  infoSave := true
  infoErase := true
  timerCreate := true
  timerStart := true
  firmwareCheck _ := .mdfOk
  setBootPartition _ := true

theorem crashStart_works : crashStart.Works := ⟨rfl, rfl, rfl, rfl, rfl⟩

theorem crashes_work (n : ℕ) :
    ∀ ev ∈ List.replicate n (StartEvent.start crashStart), ev.Works := by
  intro ev hev
  rw [List.eq_of_mem_replicate hev]
  exact crashStart_works

theorem tenth_start_triggers :
    (restartTrigger fallbackSdkconfig crashStart
      (run (fallbackStep fallbackSdkconfig twoOta) ⟨none, false, ota0, ota0⟩
        (List.replicate 9 (.start crashStart))).restartCount).ret = true :=
  (restart_triggers_iff (by decide) rfl (crashes_work 9) crashStart_works).mpr (by decide)

/-- **A version that keeps running is kept** once the device has fallen back to it. -/
theorem fallback_settles {p : EspPartition} {es rest : List StartEvent}
    (hmany : 1 < c.mupgradeRestartCount) (hd : d.restartCount = none)
    (hes : ∀ ev ∈ es, ev.Works) (he : e.Works)
    (hrow : c.mupgradeRestartCount.toNat ∣ startsInRow (es ++ [.start e]))
    (hp : c.partition t (run (fallbackStep c t) d es).boot = some p)
    (hcheck : e.firmwareCheck (some p) = .mdfOk) (hset : e.setBootPartition p = true)
    (hrest : Along (fallbackStep c t) (fun d ev => ev.Works ∧ Outlasts p d ev)
      (run (fallbackStep c t) d (es ++ [.start e])) rest) :
    Through (fallbackStep c t) (fun d => d.boot = p)
      (run (fallbackStep c t) d (es ++ [.start e])) rest := by
  have hpos : 0 < c.mupgradeRestartCount := UInt32.lt_trans UInt32.zero_lt_one hmany
  have hcounts : Counts c (run (fallbackStep c t) d es) (startsInRow es) :=
    counts_erased hpos hd hes
  have hback : run (fallbackStep c t) d (es ++ [.start e]) =
      ⟨none, false, (run (fallbackStep c t) d es).boot, p⟩ := by
    have hfallback : mupgradeVersionFallback c t (run (fallbackStep c t) d es).boot e = .ok p := by
      rw [mupgradeVersionFallback, hp]
      dsimp only
      rw [hcheck, if_neg (fun h => h rfl), if_pos hset]
    rw [run_append, run_cons, run_nil, fallbackStep_start he]
    obtain ⟨-, -, hdvd⟩ | ⟨hnot, -⟩ := start_cases hpos he hcounts
    · rw [startsInRow_start] at hrow
      exact absurd hrow hdvd
    · rw [if_neg hnot, fallenBack, hfallback]
  have hsettled : Settled p (run (fallbackStep c t) d (es ++ [.start e])) := by
    rw [hback]
    exact ⟨rfl, fun _ => rfl, fun _ => rfl⟩
  exact through_of_invariant_along (fun d ev h hev => h.step hmany hev.1 hev.2)
    (fun d h => h.boot) hsettled hrest

/-- The other version is started, runs for long enough, and is started again. -/
theorem other_version_settles :
    Through (fallbackStep fallbackSdkconfig twoOta) (fun d => d.boot = ota1)
      (run (fallbackStep fallbackSdkconfig twoOta) ⟨none, false, ota0, ota0⟩
        (List.replicate 9 (.start crashStart) ++ [.start crashStart]))
      [.start crashStart, .timeout true, .start crashStart] :=
  fallback_settles (by decide) rfl (crashes_work 9) crashStart_works (by decide) rfl rfl rfl
    ⟨⟨crashStart_works, fun _ => Or.inr rfl⟩, ⟨rfl, trivial⟩,
      ⟨crashStart_works, fun _ => Or.inr rfl⟩, trivial⟩

end EspMesh
