import EspMesh.Proof.ConfigFile

/-! # Losing power while the configuration is changed

A change writes a second file, removes the configuration and gives the second file its name. A
boot that finds no configuration writes the defaults, and one that finds a file takes it as it
is.
-/

namespace EspMesh
set_option autoImplicit false
set_option maxRecDepth 20000
open ByteMem LineFile StepRuns

/-! ## What a later boot reads -/

/-- The fields a reader with a cleared record gets. -/
def configOf (values : ConfigValues) : SystemConfig := fun i =>
  copyField i.size (SystemConfig.zero i) (values i)

/-- A boot with no I/O failure; no handle is left from before. -/
def boot (fs : Spiffs) : Spiffs :=
  run Spiffs.apply { fs with opened := 0 } (systemConfigInit ⟨true, true, true⟩ fs).1

def Reads (fs : Spiffs) (config : SystemConfig) : Prop :=
  getSystemConfig true fs .zero = (0, config)

/-- A boot finds the configuration before the change or the one asked for. -/
def Kept (values asked : ConfigValues) (fs : Spiffs) : Prop :=
  Reads (boot fs) (configOf values) ∨ Reads (boot fs) (configOf asked)

/-- The defaults read as the configuration before the change or as the one asked for. -/
def DefaultsDo (values asked : ConfigValues) : Prop :=
  configOf configValues = configOf values ∨ configOf configValues = configOf asked

def Readable (fs : Spiffs) : Prop := (getSystemConfig true fs .zero).1 = 0

/-- The operations of a boot that finds no configuration. -/
def initOps : List FileOp :=
  .openWrite .config ::
    ((configLines configValues configItems).map (· ++ [newline])).map (.puts .config) ++ [.close]

theorem systemConfigInit_none {fs : Spiffs} (h : fs.files .config = none) :
    systemConfigInit ⟨true, true, true⟩ fs = (initOps, 0) := by
  simp [systemConfigInit, h, initOps, configLines, Function.comp_def]

theorem systemConfigInit_some {fs : Spiffs} {file : List UInt8}
    (h : fs.files .config = some file) : systemConfigInit ⟨true, true, true⟩ fs = ([], 0) := by
  simp [systemConfigInit, h]

theorem boot_config (fs : Spiffs) :
    (boot fs).files .config = some ((fs.files .config).getD (configFile configValues)) := by
  cases h : fs.files .config with
  | none =>
    rw [boot, systemConfigInit_none h, initOps, List.cons_append, run_cons, run_append, run_puts]
    simp [Spiffs.apply, configFile, ofLines, List.flatMap]
  | some file =>
    rw [boot, systemConfigInit_some h]
    exact h

theorem reads_file {fs : Spiffs} {values : ConfigValues} (h : Holds values fs)
    (config : SystemConfig) : Reads fs config ↔ configOf values = config := by
  rw [Reads, getSystemConfig_file h.1 h.2]
  exact ⟨congrArg Prod.snd, fun hc => by rw [← hc]; rfl⟩

theorem kept_of_config {fs : Spiffs} {values : ConfigValues} (h : Holds values fs)
    (asked : ConfigValues) : Kept values asked fs := by
  have hboot : Holds values (boot fs) := ⟨h.1, by rw [boot_config, h.2]; rfl⟩
  exact .inl ((reads_file hboot _).mpr rfl)

/-- Without a configuration the boot writes the defaults. -/
theorem kept_without_config {fs : Spiffs} (h : fs.files .config = none)
    (values asked : ConfigValues) : Kept values asked fs ↔ DefaultsDo values asked := by
  have hboot : Holds configValues (boot fs) :=
    ⟨configValues_oneLine, by rw [boot_config, h]; rfl⟩
  rw [Kept, reads_file hboot, reads_file hboot, DefaultsDo]

/-! ## The change -/

/-- The operation leaves the configuration as it is. -/
def FileOp.Spares : FileOp → Prop
  | .openWrite file | .puts file _ | .unlink file => file ≠ .config
  | .rename _ _ => False
  | .openRead | .close => True

theorem apply_spares (fs : Spiffs) {op : FileOp} (h : op.Spares) :
    (fs.apply op).files .config = fs.files .config := by
  cases op with
  | openRead => rfl
  | openWrite file => exact Function.update_of_ne (Ne.symm h) _ _
  | puts file text => exact Function.update_of_ne (Ne.symm h) _ _
  | close => rfl
  | unlink file => exact Function.update_of_ne (Ne.symm h) _ _
  | rename source dest => exact h.elim

theorem run_spares (fs : Spiffs) {ops : List FileOp} (h : ∀ op ∈ ops, op.Spares) :
    (run Spiffs.apply fs ops).files .config = fs.files .config := by
  have hops : Along Spiffs.apply (fun _ op => op.Spares) fs ops := along_event.mpr h
  refine run_invariant_along (I := fun fs' => fs'.files .config = fs.files .config) ?_ rfl hops
  intro fs' op hfs hop
  rw [apply_spares fs' hop, hfs]

theorem rewriteOps_spares (texts : List (List UInt8)) : ∀ op ∈ rewriteOps texts, op.Spares := by
  intro op hop
  simp only [rewriteOps, List.mem_append, List.mem_cons, List.not_mem_nil, or_false,
    List.mem_map] at hop
  obtain ((rfl | rfl) | ⟨text, -, rfl⟩) | rfl | rfl := hop
  · trivial
  · exact ConfigFile.noConfusion
  · exact ConfigFile.noConfusion
  · trivial
  · trivial

theorem updateLoop_length (var newLine buffer : List UInt8) (n : ℕ) (file : List UInt8) :
    (updateLoop var newLine n file buffer).length = n := by
  induction n generalizing file buffer with
  | zero => rfl
  | succ n ih => rw [updateLoop, List.length_cons, ih]

theorem written_length (e : UpdateEnv) (texts : List (List UInt8)) :
    (written e texts).length = texts.length := List.length_mapIdx ..

theorem rewriteOps_length (texts : List (List UInt8)) :
    (rewriteOps texts).length = texts.length + 4 := by
  simp [rewriteOps]

theorem updateSystemConfig_ok_length {fs : Spiffs} {file : List UInt8}
    (h : fs.files .config = some file) (var value buffer : List UInt8) :
    (updateSystemConfig var value (.ok buffer) fs).1.length = configItems.length + 6 := by
  rw [updateSystemConfig_ops h rfl rfl, List.length_append, rewriteOps_length, written_length,
    updateLoop_length]
  rfl

/-- A call that cannot open both files leaves the one it could open. -/
theorem updateSystemConfig_unopened {fs : Spiffs} {file : List UInt8} {e : UpdateEnv}
    (h : fs.files .config = some file) (hopen : ¬ (e.fopenRead = true ∧ e.fopenWrite = true))
    (var value : List UInt8) :
    updateSystemConfig var value e fs =
      ((if e.fopenRead then [.openRead] else []) ++
        if e.fopenWrite then [.openWrite .replace] else [], -2) := by
  cases hread : e.fopenRead <;> cases hwrite : e.fopenWrite <;>
    simp [updateSystemConfig, hread, hwrite, h] at hopen ⊢

theorem unopened_spares (e : UpdateEnv) :
    ∀ op ∈ ((if e.fopenRead then [.openRead] else []) ++
      if e.fopenWrite then [.openWrite .replace] else []), FileOp.Spares op := by
  cases e.fopenRead <;> cases e.fopenWrite <;> simp [FileOp.Spares]

theorem UpdateEnv.ending_cases (e : UpdateEnv) :
    (e.unlinkOk = false ∧ e.ending = ([], -3)) ∨
      (e.unlinkOk = true ∧ e.ending = ([.unlink .config], -3)) ∨
      (e.unlinkOk = true ∧ e.ending = ([.unlink .config, .rename .replace .config], 0)) := by
  cases hunlink : e.unlinkOk <;> cases hrename : e.renameOk <;>
    simp [UpdateEnv.ending, hunlink, hrename]

section Change
variable {values asked : ConfigValues} {fs : Spiffs} {e : UpdateEnv}

/-- Up to the closing of both files the configuration is not touched. -/
theorem kept_before_unlink (h : Holds values fs) {ops : List FileOp}
    (hops : ∀ op ∈ ops, op.Spares) : Kept values asked (run Spiffs.apply fs ops) := by
  apply kept_of_config
  exact ⟨h.1, (run_spares fs hops).trans h.2⟩

theorem kept_after_unlink (texts : List (List UInt8)) :
    Kept values asked (run Spiffs.apply fs (rewriteOps texts ++ [.unlink .config])) ↔
      DefaultsDo values asked := by
  apply kept_without_config
  simp [run_append, Spiffs.apply]

/-- A power loss between two operations of a change: only the one between the removal of the
old file and the naming of the new one shows. -/
theorem kept_cut (h : Holds values fs) (var value : List UInt8) {k : ℕ}
    (hk : k < (updateSystemConfig var value e fs).1.length) :
    Kept values asked (run Spiffs.apply fs ((updateSystemConfig var value e fs).1.take k)) ↔
      (k = configItems.length + 5 → DefaultsDo values asked) := by
  have hitems : configItems.length = 7 := rfl
  by_cases hopen : e.fopenRead = true ∧ e.fopenWrite = true
  · rw [updateSystemConfig_ops h.2 hopen.1 hopen.2] at hk ⊢
    dsimp only at hk ⊢
    set texts := written e _ with htexts
    have hlen : (rewriteOps texts).length = configItems.length + 4 := by
      rw [rewriteOps_length, htexts, written_length, updateLoop_length]
    by_cases hcut : k = configItems.length + 5
    · have hending : e.ending.1 = [.unlink .config, .rename .replace .config] := by
        rcases e.ending_cases with ⟨-, hend⟩ | ⟨-, hend⟩ | ⟨-, hend⟩
        all_goals simp only [hend, List.length_append, List.length_cons, List.length_nil] at hk ⊢
        all_goals omega
      have htake : (rewriteOps texts ++ e.ending.1).take k =
          rewriteOps texts ++ [.unlink .config] := by
        have hone : k - (rewriteOps texts).length = 1 := by omega
        rw [List.take_append, List.take_of_length_le (by omega), hone, hending]
        rfl
      rw [htake, kept_after_unlink]
      exact ⟨fun hdo _ => hdo, fun hdo => hdo hcut⟩
    · have hle : k ≤ (rewriteOps texts).length := by
        rcases e.ending_cases with ⟨-, hend⟩ | ⟨-, hend⟩ | ⟨-, hend⟩
        all_goals simp only [hend, List.length_append, List.length_cons, List.length_nil] at hk
        all_goals omega
      rw [List.take_append_of_le_length hle]
      refine iff_of_true (kept_before_unlink h fun op hop => ?_) fun h => absurd h hcut
      exact rewriteOps_spares texts op (List.mem_of_mem_take hop)
  · rw [updateSystemConfig_unopened h.2 hopen] at hk ⊢
    have hnone : k ≠ configItems.length + 5 := by
      intro hcut
      have hlen : k < 2 := by
        refine hk.trans_le ?_
        cases e.fopenRead <;> cases e.fopenWrite <;> simp
      omega
    refine iff_of_true (kept_before_unlink h fun op hop => ?_) fun h => absurd h hnone
    exact unopened_spares e op (List.mem_of_mem_take hop)

/-- A call that fails. -/
theorem kept_failed (h : Holds values fs) (var value : List UInt8)
    (hret : (updateSystemConfig var value e fs).2 ≠ 0) :
    (Kept values asked (run Spiffs.apply fs (updateSystemConfig var value e fs).1) ∧
      (run Spiffs.apply fs (updateSystemConfig var value e fs).1).opened = fs.opened) ↔
      e.fopenRead = e.fopenWrite ∧
        (e.fopenRead = true → e.unlinkOk = true → DefaultsDo values asked) := by
  by_cases hopen : e.fopenRead = true ∧ e.fopenWrite = true
  · rw [updateSystemConfig_ops h.2 hopen.1 hopen.2] at hret ⊢
    dsimp only at hret ⊢
    set texts := written e _
    rw [hopen.1, hopen.2]
    rcases e.ending_cases with ⟨hunlink, hend⟩ | ⟨hunlink, hend⟩ | ⟨hunlink, hend⟩
    · rw [hend, hunlink, List.append_nil]
      have hkept : Kept values asked (run Spiffs.apply fs (rewriteOps texts)) :=
        kept_before_unlink h (rewriteOps_spares texts)
      have hopened : (run Spiffs.apply fs (rewriteOps texts)).opened = fs.opened := by
        rw [run_rewriteOps]
      exact iff_of_true ⟨hkept, hopened⟩ ⟨rfl, fun _ h => Bool.noConfusion h⟩
    · rw [hend, hunlink, kept_after_unlink]
      simp [run_append, run_rewriteOps, Spiffs.apply]
    · exact absurd (congrArg Prod.snd hend) hret
  · rw [updateSystemConfig_unopened h.2 hopen]
    have hkept : Kept values asked (run Spiffs.apply fs
        ((if e.fopenRead then [.openRead] else []) ++
          if e.fopenWrite then [.openWrite .replace] else [])) :=
      kept_before_unlink h (unopened_spares e)
    dsimp only
    simp only [hkept, true_and]
    revert hopen
    cases e.fopenRead <;> cases e.fopenWrite <;> simp [Spiffs.apply]

end Change

/-! ## Writing the defaults -/

theorem getLoop_end (n : ℕ) (pConfig : SystemConfig) : getLoop (n + 1) [] pConfig = (-2, pConfig) :=
  rfl

/-- A file that lacks the lines of some items cannot be read. -/
theorem readable_lines {values : ConfigValues} {its : List ConfigItem} {fs : Spiffs} {n : ℕ}
    (hv : ∀ i, OneLine (values i)) (hits : its.Nodup)
    (hn : its.length + n = configItems.length)
    (h : fs.files .config = some (ofLines (configLines values its))) : Readable fs ↔ n = 0 := by
  rw [Readable, getSystemConfig_some h, ← hn, getLoop_lines hv hits]
  cases n with
  | zero => exact iff_of_true rfl rfl
  | succ n =>
    rw [getLoop_end]
    exact iff_of_false (Int.negSucc_ne_zero 1) (Nat.succ_ne_zero n)

/-- What is there of the file after a beginning of the boot's operations. -/
theorem initOps_config (fs : Spiffs) (k : ℕ) :
    (run Spiffs.apply fs (initOps.take (k + 1))).files .config =
      some (ofLines (configLines configValues (configItems.take k))) := by
  have hclose : ∀ (m : ℕ), ∀ op ∈ [FileOp.close].take m, op.Spares := by
    intro m op hop
    rw [List.mem_singleton.mp (List.mem_of_mem_take hop)]
    trivial
  rw [initOps, List.cons_append, List.take_succ_cons, List.take_append, run_cons, run_append,
    run_spares _ (hclose _), ← List.map_take, run_puts]
  simp [Spiffs.apply, ofLines, List.flatMap, configLines, ← List.map_take]

theorem boots_config (fs : Spiffs) (n : ℕ) :
    (boot^[n + 1] fs).files .config =
      some ((fs.files .config).getD (configFile configValues)) := by
  induction n with
  | zero => exact boot_config fs
  | succ n ih => rw [Function.iterate_succ_apply', boot_config, ih, Option.getD_some]

theorem systemConfigInit_ops {fs : Spiffs} (h : fs.files .config = none) (e : InitEnv) :
    (systemConfigInit e fs).1 = [] ∨ (systemConfigInit e fs).1 = initOps := by
  have hall := congrArg Prod.fst (systemConfigInit_none h)
  obtain ⟨registered, infoOk, fopenOk⟩ := e
  cases registered <;> cases infoOk <;> cases fopenOk <;>
    first | exact .inr hall | exact .inl (by simp [systemConfigInit, h])

/-- A power loss during the boot that writes the defaults; any number of boots follows. -/
theorem readable_after_init {fs : Spiffs} (h : fs.files .config = none) (e : InitEnv) {k : ℕ}
    (hk : k ≤ (systemConfigInit e fs).1.length) (n : ℕ) :
    Readable (boot^[n + 1] (run Spiffs.apply fs ((systemConfigInit e fs).1.take k))) ↔
      k = 0 ∨ configItems.length < k := by
  have hnodup : configItems.Nodup := by decide
  cases k with
  | zero =>
    have hdefaults := boots_config fs n
    rw [h] at hdefaults
    rw [List.take_zero, run_nil, readable_lines (n := 0) configValues_oneLine hnodup rfl hdefaults]
    exact iff_of_true rfl (.inl rfl)
  | succ k =>
    have hops : (systemConfigInit e fs).1 = initOps := by
      refine (systemConfigInit_ops h e).resolve_left fun hnil => ?_
      rw [hnil] at hk
      exact Nat.not_succ_le_zero k hk
    have hcut := boots_config (run Spiffs.apply fs (initOps.take (k + 1))) n
    rw [initOps_config, Option.getD_some] at hcut
    have hlen : (configItems.take k).length + (configItems.length - k) = configItems.length := by
      rw [List.length_take]
      omega
    rw [hops, readable_lines configValues_oneLine (hnodup.sublist (List.take_sublist ..)) hlen hcut]
    omega

/-! ## All or nothing -/

/-- Of the points at which the power can be lost during a change, only the one between the
removal and the renaming can show, and it does unless the defaults read as one of the two
configurations. A call that fails keeps the configuration and the handles unless one of the two
files cannot be opened, or the renaming fails after the removal. A boot that loses its power
while it writes the defaults leaves a readable file only if it has written none or all of the
lines. -/
theorem config_change_kept {values : ConfigValues} {fs : Spiffs} (h : Holds values fs)
    (it : ConfigItem) (value : List UInt8) (e : UpdateEnv) :
    let asked := values.set it value
    let ops := (updateSystemConfig it.name value e fs).1
    let ret := (updateSystemConfig it.name value e fs).2
    (∀ k < ops.length, Kept values asked (run Spiffs.apply fs (ops.take k)) ↔
      (k = configItems.length + 5 → DefaultsDo values asked)) ∧
    (ret ≠ 0 → ((Kept values asked (run Spiffs.apply fs ops) ∧
        (run Spiffs.apply fs ops).opened = fs.opened) ↔
      e.fopenRead = e.fopenWrite ∧
        (e.fopenRead = true → e.unlinkOk = true → DefaultsDo values asked))) ∧
    ∀ (blank : Spiffs) (i : InitEnv), blank.files .config = none →
      ∀ k ≤ (systemConfigInit i blank).1.length, ∀ n,
        Readable (boot^[n + 1] (run Spiffs.apply blank ((systemConfigInit i blank).1.take k))) ↔
          k = 0 ∨ configItems.length < k :=
  ⟨fun _ hk => kept_cut h it.name value hk, fun hret => kept_failed h it.name value hret,
    fun _ i hblank _ hk n => readable_after_init hblank i hk n⟩

theorem config_change_kept_created :
    Kept configValues (ConfigValues.set configValues .routerSsid (ofString "Home"))
      (run Spiffs.apply (createdConfig none 0) ((updateSystemConfig ConfigItem.routerSsid.name
        (ofString "Home") (.ok []) (createdConfig none 0)).1.take 11)) := by
  have hholds := createdConfig_holds none 0
  have hlen := updateSystemConfig_ok_length hholds.2 ConfigItem.routerSsid.name (ofString "Home") []
  refine ((config_change_kept hholds .routerSsid (ofString "Home") (.ok [])).1 11 ?_).mpr ?_
  · rw [hlen]
    decide
  · exact fun h => absurd h (by decide)

/-- A query that changes the network. -/
def changeNetwork : ConfigChange × List UInt8 :=
  (.cmdHandler .routerSsid ⟨ofString "Home", by decide, by decide, by decide⟩, [])

/-- Another value is changed after it, and the power is lost in front of the renaming: the network
is the one of the defaults again. -/
theorem change_loses_configuration :
    ¬ ∀ (values : ConfigValues) (fs : Spiffs) (it : ConfigItem) (value : List UInt8)
      (e : UpdateEnv) (k : ℕ), Holds values fs →
      k < (updateSystemConfig it.name value e fs).1.length →
      Kept values (values.set it value)
        (run Spiffs.apply fs ((updateSystemConfig it.name value e fs).1.take k)) := by
  intro h
  have hholds := changeStep_holds (e := changeNetwork) (createdConfig_holds none 0)
    ConfigChange.noConfusion
  have hlen : 12 < (updateSystemConfig ConfigItem.serverPort.name (ofString "9000") (.ok [])
      (changeStep (createdConfig none 0) changeNetwork)).1.length := by
    rw [updateSystemConfig_ok_length hholds.2]
    decide
  have hlost := (kept_cut hholds _ _ hlen).mp (h _ _ _ _ _ _ hholds hlen) rfl
  rcases hlost with hold | hasked
  · exact absurd (congrFun hold .routerSsid) (by decide)
  · exact absurd (congrFun hasked .routerSsid) (by decide)

end EspMesh
