import EspMesh.Library.StepRuns
import EspMesh.Model.AppSpiffs

/-! # The shape of the configuration file

Rewriting the file copies seven lines, one of them replaced, so the file keeps its lines as long
as the new one is a line. The mode of a SWITCH request reaches the file as the character
`mode + 0x30`, which for one mode is a newline.
-/

namespace EspMesh
set_option autoImplicit false
set_option maxRecDepth 20000
open ByteMem LineFile StepRuns

/-! ## Files of the right shape -/

abbrev ConfigValues := ConfigItem → List UInt8

def configLines (values : ConfigValues) (its : List ConfigItem) : List (List UInt8) :=
  its.map fun it => configLine it.name (values it)

def configFile (values : ConfigValues) : List UInt8 := ofLines (configLines values configItems)

/-- What `cmd_handler` takes from a query, if there is no newline in it. -/
structure OneLine (value : List UInt8) : Prop where
  short : value.length ≤ 31
  noNul : 0 ∉ value
  noNewline : newline ∉ value

/-- One line for each item, in order, and a file that can be read. -/
structure InShape (fs : Spiffs) : Prop where
  lines : ∃ values : ConfigValues, (∀ it, newline ∉ values it) ∧
    fs.files .config = some (configFile values)
  readable : ∀ pConfig, (getSystemConfig true fs pConfig).1 = 0

/-- The file holds values that each fit into a line. -/
def Holds (values : ConfigValues) (fs : Spiffs) : Prop :=
  (∀ it, OneLine (values it)) ∧ fs.files .config = some (configFile values)

/-! ## Names -/

theorem mem_configItems (it : ConfigItem) : it ∈ configItems := by
  cases it <;> decide

theorem name_ascii (it : ConfigItem) : newline ∉ it.name ∧ 0 ∉ it.name ∧ equalsSign ∉ it.name ∧
    it.name.length ≤ 12 := by
  cases it <;> decide

theorem item_of_prefixed {i j : ConfigItem} (h : i.name <+: j.name) : i = j := by
  cases i <;> cases j <;> first | rfl | exact absurd h (by decide)

theorem prefixed_line_iff {i j : ConfigItem} {rest : List UInt8} :
    i.name <+: j.name ++ rest ↔ i = j := by
  constructor
  · intro h
    rcases List.prefix_or_prefix_of_prefix h (List.prefix_append j.name rest) with h | h
    · exact item_of_prefixed h
    · exact (item_of_prefixed h).symm
  · rintro rfl
    exact List.prefix_append _ _

theorem OneLine.line {value : List UInt8} (h : OneLine value) (it : ConfigItem) :
    newline ∉ configLine it.name value ∧ 0 ∉ configLine it.name value ∧
      (configLine it.name value).length < bufferSize - 1 := by
  obtain ⟨hnewline, hnul, -, hlen⟩ := name_ascii it
  have hshort := h.short
  refine ⟨?_, ?_, ?_⟩
  · have hequals : newline ≠ equalsSign := by decide
    simp [configLine, hnewline, h.noNewline, hequals]
  · simp [configLine, hnul, h.noNul, equalsSign]
  · simp only [configLine, List.length_append, List.length_cons, bufferSize]
    omega

theorem configValues_oneLine (it : ConfigItem) : OneLine (configValues it) := by
  cases it <;> exact ⟨by decide, by decide, by decide⟩

/-! ## The next line of a file -/

variable {values : ConfigValues} {it : ConfigItem} {its : List ConfigItem}

theorem configFile_cons (hv : OneLine (values it)) :
    fgets (bufferSize - 1) (ofLines (configLines values (it :: its))) =
      (configLine it.name (values it) ++ [newline], ofLines (configLines values its)) :=
  fgets_line (hv.line it).1 (hv.line it).2.2 _

theorem cstr_configLine (hv : OneLine (values it)) :
    cstr (configLine it.name (values it) ++ [newline]) =
      configLine it.name (values it) ++ [newline] := by
  have hnewline : newline != 0 := by decide
  have hnul := (hv.line it).2.1
  refine List.takeWhile_eq_self_iff.mpr fun b hb => ?_
  rcases List.mem_append.mp hb with hb | hb
  · simpa using fun h : b = 0 => hnul (h ▸ hb)
  · rw [List.mem_singleton.mp hb]
    exact hnewline

theorem takeWhile_configLine (hv : OneLine (values it)) :
    (configLine it.name (values it) ++ [newline]).takeWhile (· != newline) =
      configLine it.name (values it) := by
  have hline := (hv.line it).1
  rw [List.takeWhile_append_of_pos fun b hb => by simpa using fun h : b = newline => hline (h ▸ hb)]
  simp

theorem behindEquals_configLine (value : List UInt8) :
    behindEquals (configLine it.name value) = some value := by
  have hname := (name_ascii it).2.2.1
  have hmem : equalsSign ∈ configLine it.name value :=
    List.mem_append_right _ (List.mem_cons_self ..)
  have hdrop : (configLine it.name value).dropWhile (· != equalsSign) = equalsSign :: value := by
    rw [configLine, List.dropWhile_append_of_pos fun b hb => by
      simpa using fun h : b = equalsSign => hname (h ▸ hb)]
    simp
  rw [behindEquals, if_pos hmem, hdrop]
  rfl

theorem setItems_configLine (value : List UInt8) (pConfig : SystemConfig) :
    setItems (configLine it.name value) value pConfig =
      Function.update pConfig it (copyField it.size (pConfig it) value) := by
  funext i
  by_cases hi : i = it
  · subst hi
    rw [Function.update_self]
    exact if_pos (List.prefix_append _ _)
  · rw [Function.update_of_ne hi]
    exact if_neg fun h => hi (prefixed_line_iff.mp h)

/-! ## Reading a file -/

/-- The fields read from a file that has a line for each of `its`. -/
theorem getLoop_lines (hv : ∀ i, OneLine (values i)) (hits : its.Nodup) (n : ℕ)
    (pConfig : SystemConfig) :
    getLoop (its.length + n) (ofLines (configLines values its)) pConfig =
      getLoop n [] fun i =>
        if i ∈ its then copyField i.size (pConfig i) (values i) else pConfig i := by
  induction its generalizing pConfig with
  | nil => simp [configLines]
  | cons it its ih =>
    obtain ⟨hit, hits⟩ := List.nodup_cons.mp hits
    rw [List.length_cons, Nat.add_right_comm, getLoop, configFile_cons (hv it)]
    dsimp only
    rw [cstr_configLine (hv it), takeWhile_configLine (hv it), behindEquals_configLine]
    dsimp only
    rw [setItems_configLine, ih hits]
    congr 1
    funext i
    by_cases hi : i = it
    · subst hi
      simp [hit]
    · simp [hi]

theorem getSystemConfig_some {fs : Spiffs} {file : List UInt8}
    (h : fs.files .config = some file) (pConfig : SystemConfig) :
    getSystemConfig true fs pConfig = getLoop configItems.length file pConfig := by
  simp [getSystemConfig, h]

/-- The seven lines may stand in any order. -/
theorem getSystemConfig_perm {fs : Spiffs} (hits : its.Perm configItems)
    (hv : ∀ i, OneLine (values i))
    (h : fs.files .config = some (ofLines (configLines values its))) (pConfig : SystemConfig) :
    getSystemConfig true fs pConfig =
      (0, fun i => copyField i.size (pConfig i) (values i)) := by
  have hnodup : its.Nodup := hits.nodup_iff.mpr (by decide)
  have hloop := getLoop_lines hv hnodup 0 pConfig
  simp only [hits.mem_iff, mem_configItems, if_true] at hloop
  rw [getSystemConfig_some h, ← hits.length_eq]
  exact hloop

theorem getSystemConfig_file {fs : Spiffs} (hv : ∀ i, OneLine (values i))
    (h : fs.files .config = some (configFile values)) (pConfig : SystemConfig) :
    getSystemConfig true fs pConfig =
      (0, fun i => copyField i.size (pConfig i) (values i)) :=
  getSystemConfig_perm (List.Perm.refl _) hv h pConfig

/-! ## Rewriting a file -/

/-- The value of one item after the change. -/
abbrev ConfigValues.set (values : ConfigValues) (it : ConfigItem) (value : List UInt8) :
    ConfigValues := Function.update values it value

theorem OneLine.set (hv : ∀ i, OneLine (values i)) {value : List UInt8} (hvalue : OneLine value)
    (i : ConfigItem) : OneLine (values.set it value i) := by
  by_cases hi : i = it
  · subst hi
    simpa using hvalue
  · simpa [hi] using hv i

theorem updateLoop_lines (hv : ∀ i, OneLine (values i)) (value buffer : List UInt8) :
    updateLoop it.name (configLine it.name value ++ [newline]) its.length
        (ofLines (configLines values its)) buffer =
      (configLines (values.set it value) its).map (· ++ [newline]) := by
  induction its generalizing buffer with
  | nil => rfl
  | cons i its ih =>
    have hline : ¬ configLine i.name (values i) ++ [newline] = [] := by simp
    have hstarts : it.name <+: configLine i.name (values i) ++ [newline] ↔ it = i := by
      rw [configLine, List.append_assoc]
      exact prefixed_line_iff
    rw [List.length_cons, updateLoop, configFile_cons (hv i)]
    dsimp only
    rw [if_neg hline, cstr_configLine (hv i), ih]
    by_cases hi : it = i
    · subst hi
      rw [if_pos (hstarts.mpr rfl)]
      simp [configLines]
    · rw [if_neg fun h => hi (hstarts.mp h)]
      simp [configLines, Function.update_of_ne (Ne.symm hi)]

theorem run_puts (fs : Spiffs) (file : ConfigFile) (texts : List (List UInt8)) :
    run Spiffs.apply fs (texts.map (.puts file)) =
      { fs with
        files := Function.update fs.files file ((fs.files file).map (· ++ texts.flatten)) } := by
  induction texts generalizing fs with
  | nil =>
    have hid : (fs.files file).map (· ++ ([] : List (List UInt8)).flatten) = fs.files file := by
      simp
    rw [hid, Function.update_eq_self]
    rfl
  | cons text texts ih =>
    rw [List.map_cons, run_cons, ih]
    simp [Spiffs.apply, Function.comp_def]

/-- The operations up to the closing of both files. -/
def rewriteOps (texts : List (List UInt8)) : List FileOp :=
  [.openRead, .openWrite .replace] ++ texts.map (.puts .replace) ++ [.close, .close]

theorem run_rewriteOps (fs : Spiffs) (texts : List (List UInt8)) :
    run Spiffs.apply fs (rewriteOps texts) =
      { fs with files := Function.update fs.files .replace (some texts.flatten) } := by
  rw [rewriteOps, run_append, run_append, run_puts]
  simp [Spiffs.apply]

/-- The texts that are written: of an `fputs` that fails nothing is. -/
def written (e : UpdateEnv) (texts : List (List UInt8)) : List (List UInt8) :=
  texts.mapIdx fun i text => if e.fputsOk i then text else []

/-- A line whose `fputs` fails is missing; the others stand in their order. -/
theorem written_lines (e : UpdateEnv) (ls : List (List UInt8)) :
    ∃ ms, ms.Sublist ls ∧ (ms.length = ls.length ↔ ∀ i < ls.length, e.fputsOk i = true) ∧
      (written e (ls.map (· ++ [newline]))).flatten = ofLines ms := by
  obtain ⟨_, _, fputsOk, _, _, _⟩ := e
  simp only [written]
  induction ls generalizing fputsOk with
  | nil => exact ⟨[], List.Sublist.refl _, by simp, rfl⟩
  | cons l ls ih =>
    obtain ⟨ms, hsub, hlen, hflat⟩ := ih fun i => fputsOk (i + 1)
    rw [List.map_cons, List.mapIdx_cons, List.flatten_cons, hflat, List.length_cons]
    by_cases h0 : fputsOk 0 = true
    · refine ⟨l :: ms, hsub.cons_cons l, ?_, by simp [h0]⟩
      rw [List.length_cons, Nat.add_right_cancel_iff, hlen, Nat.forall_lt_succ_left]
      exact (and_iff_right h0).symm
    · refine ⟨ms, hsub.cons l, ?_, by simp [h0]⟩
      have hle := hsub.length_le
      exact ⟨fun h => by omega, fun h => absurd (h 0 (Nat.succ_pos _)) h0⟩

/-- What follows the closing of both files, and what the call returns. -/
def UpdateEnv.ending (e : UpdateEnv) : List FileOp × ℤ :=
  if !e.unlinkOk then ([], -3)
  else if !e.renameOk then ([.unlink .config], -3)
  else ([.unlink .config, .rename .replace .config], 0)

/-- What a call does when both files can be opened, whatever the configuration holds. -/
theorem updateSystemConfig_ops {fs : Spiffs} {file : List UInt8} {e : UpdateEnv}
    (h : fs.files .config = some file) (hread : e.fopenRead = true) (hwrite : e.fopenWrite = true)
    (var value : List UInt8) :
    updateSystemConfig var value e fs =
      (rewriteOps (written e (updateLoop var ((configLine var value ++ [newline]).take
        (bufferSize - 1)) configItems.length file e.buffer)) ++ e.ending.1, e.ending.2) := by
  simp only [updateSystemConfig, hread, hwrite, h, UpdateEnv.ending]
  cases e.unlinkOk
  · exact Prod.ext (List.append_nil _).symm rfl
  · cases e.renameOk <;> rfl

/-- A change of a file that has its shape. -/
theorem updateSystemConfig_lines {fs : Spiffs} {e : UpdateEnv} {value : List UInt8}
    (hits : its.Perm configItems) (hv : ∀ i, OneLine (values i))
    (h : fs.files .config = some (ofLines (configLines values its)))
    (hvalue : value.length ≤ 31) (hread : e.fopenRead = true) (hwrite : e.fopenWrite = true) :
    updateSystemConfig it.name value e fs =
      (rewriteOps (written e ((configLines (values.set it value) its).map
        (· ++ [newline]))) ++ e.ending.1, e.ending.2) := by
  have hname := (name_ascii it).2.2.2
  have hnew : (configLine it.name value ++ [newline]).take (bufferSize - 1) =
      configLine it.name value ++ [newline] := by
    apply List.take_of_length_le
    simp only [configLine, List.length_append, List.length_cons, List.length_nil, bufferSize]
    omega
  rw [updateSystemConfig_ops h hread hwrite, hnew, ← hits.length_eq, updateLoop_lines hv]

/-! ## Changes of the configuration -/

/-- With no I/O failure. -/
def UpdateEnv.ok (buffer : List UInt8) : UpdateEnv :=
  ⟨true, true, fun _ => true, true, true, buffer⟩

/-- A query of the web page, or the mode of a SWITCH request to the root or a node. -/
inductive ConfigChange
  | cmdHandler (it : ConfigItem) (value : { value : List UInt8 // OneLine value })
  | switch (mode : UInt8)

def ConfigChange.item : ConfigChange → ConfigItem
  | .cmdHandler it _ => it
  | .switch _ => .runMode

def ConfigChange.value : ConfigChange → List UInt8
  | .cmdHandler _ value => value
  | .switch mode => cstr [mode + 0x30, 0]

/-- The change, with what the stack held where the line buffer is. -/
def changeStep (fs : Spiffs) (e : ConfigChange × List UInt8) : Spiffs :=
  run Spiffs.apply fs (updateSystemConfig e.1.item.name e.1.value (.ok e.2) fs).1

/-- The file system as `system_config_init` leaves it when there was no configuration. -/
def createdConfig (replace : Option (List UInt8)) (opened : ℕ) : Spiffs :=
  let fs : Spiffs := ⟨fun | .config => none | .replace => replace, opened⟩
  run Spiffs.apply fs (systemConfigInit ⟨true, true, true⟩ fs).1

theorem createdConfig_holds (replace : Option (List UInt8)) (opened : ℕ) :
    Holds configValues (createdConfig replace opened) := by
  refine ⟨configValues_oneLine, ?_⟩
  rfl

theorem ConfigChange.value_length (c : ConfigChange) : c.value.length ≤ 31 := by
  cases c with
  | cmdHandler it value => exact value.2.short
  | switch mode =>
    have h := List.takeWhile_sublist (fun b => b != 0) (l := [mode + 0x30, (0 : UInt8)])
    exact h.length_le.trans (Nat.le_of_ble_eq_true rfl)

theorem written_ok (buffer : List UInt8) (ls : List (List UInt8)) :
    (written (.ok buffer) (ls.map (· ++ [newline]))).flatten = ofLines ls := by
  obtain ⟨ms, hsub, hlen, hflat⟩ := written_lines (.ok buffer) ls
  rw [hflat, hsub.eq_of_length (hlen.mpr fun _ _ => rfl)]

theorem changeStep_lines {fs : Spiffs} (hits : its.Perm configItems) (hv : ∀ i, OneLine (values i))
    (h : fs.files .config = some (ofLines (configLines values its)))
    (e : ConfigChange × List UInt8) :
    (changeStep fs e).files .config =
      some (ofLines (configLines (values.set e.1.item e.1.value) its)) := by
  have hok : (UpdateEnv.ok e.2).fopenRead = true ∧ (UpdateEnv.ok e.2).fopenWrite = true :=
    ⟨rfl, rfl⟩
  rw [changeStep, updateSystemConfig_lines hits hv h e.1.value_length hok.1 hok.2, run_append,
    run_rewriteOps, written_ok]
  simp [UpdateEnv.ending, UpdateEnv.ok, Spiffs.apply]

theorem changeStep_file {fs : Spiffs} (h : Holds values fs) (e : ConfigChange × List UInt8) :
    (changeStep fs e).files .config = some (configFile (values.set e.1.item e.1.value)) :=
  changeStep_lines (List.Perm.refl _) h.1 h.2 e

/-! ## The shape is kept -/

theorem InShape.of_holds {fs : Spiffs} (h : Holds values fs) : InShape fs := by
  refine ⟨⟨values, fun i => (h.1 i).noNewline, h.2⟩, fun pConfig => ?_⟩
  rw [getSystemConfig_file h.1 h.2]

/-- There are as many newlines as items exactly when none is in a value. -/
theorem count_configFile (values : ConfigValues) :
    (configFile values).count newline = configItems.length ↔ ∀ i, newline ∉ values i := by
  have hline : ∀ i, newline ∈ configLine i.name (values i) ↔ newline ∈ values i := by
    intro i
    have hname := (name_ascii i).1
    have hequals : newline ≠ equalsSign := by decide
    simp [configLine, hname, hequals]
  rw [configFile, count_ofLines, configLines, List.length_map, Nat.add_eq_left,
    List.count_eq_zero, List.mem_flatten]
  constructor
  · intro h i hi
    exact h ⟨_, List.mem_map.mpr ⟨i, mem_configItems i, rfl⟩, (hline i).mpr hi⟩
  · rintro h ⟨l, hl, hmem⟩
    obtain ⟨i, -, rfl⟩ := List.mem_map.mp hl
    exact h i ((hline i).mp hmem)

/-- Only the mode 218 has the newline for its character. -/
theorem switch_value (mode : UInt8) (h : mode ≠ 218) :
    OneLine (ConfigChange.switch mode).value := by
  have hsum : mode + 0x30 ≠ newline := by
    intro hsum
    have hmode : mode = newline - 0x30 := by
      rw [← hsum, UInt8.add_sub_cancel]
    exact h hmode
  refine ⟨ConfigChange.value_length _, fun h0 => cstr_no_nul _ _ h0 rfl, fun hmem => ?_⟩
  have hone := (List.takeWhile_sublist _).subset hmem
  simp only [List.mem_cons, List.not_mem_nil, or_false] at hone
  rcases hone with hone | hone
  · exact hsum hone.symm
  · exact absurd hone (by decide)

theorem changeStep_holds {fs : Spiffs} (h : Holds values fs) {e : ConfigChange × List UInt8}
    (he : e.1 ≠ .switch 218) : Holds (values.set e.1.item e.1.value) (changeStep fs e) := by
  refine ⟨OneLine.set h.1 ?_, changeStep_file h e⟩
  revert he
  obtain ⟨it, value⟩ | mode := e.1 <;> intro he
  · exact value.2
  · exact switch_value mode fun hmode => he (congrArg ConfigChange.switch hmode)

/-- The mode 218 leaves a file of eight lines. -/
theorem changeStep_newline {fs : Spiffs} (h : Holds values fs) (buffer : List UInt8) :
    ¬ InShape (changeStep fs (.switch 218, buffer)) := by
  intro hshape
  obtain ⟨after, hafter, hfile⟩ := hshape.lines
  have hsame := Option.some.inj (hfile.symm.trans (changeStep_file h (.switch 218, buffer)))
  have hcount := (count_configFile after).mpr hafter
  rw [hsame, count_configFile] at hcount
  have hmode : newline ∈ (ConfigChange.switch 218).value := by decide
  apply hcount .runMode
  rwa [ConfigValues.set, ConfigChange.item, Function.update_self]

/-! ## The configuration file -/

/-- After any changes the file is in shape exactly when none of them was a SWITCH request with
the mode 218. -/
theorem config_shape (replace : Option (List UInt8)) (opened : ℕ)
    (es : List (ConfigChange × List UInt8)) :
    Through changeStep InShape (createdConfig replace opened) es ↔
      ∀ e ∈ es, e.1 ≠ .switch 218 := by
  have halong : Along changeStep (fun _ e => e.1 ≠ .switch 218) (createdConfig replace opened) es ↔
      ∀ e ∈ es, e.1 ≠ .switch 218 := along_event
  rw [← halong]
  apply through_iff_along (I := fun fs => ∃ values, Holds values fs)
  · rintro fs e ⟨values, h⟩ he
    exact ⟨_, changeStep_holds h he⟩
  · rintro fs ⟨values, h⟩
    exact .of_holds h
  · rintro fs ⟨change, buffer⟩ ⟨values, h⟩ hshape rfl
    exact changeStep_newline h buffer hshape
  · exact ⟨configValues, createdConfig_holds replace opened⟩

/-- One SWITCH request breaks the file. -/
theorem switch_adds_line :
    ¬ ∀ es : List (ConfigChange × List UInt8),
      Through changeStep InShape (createdConfig none 0) es := by
  intro h
  have hone := h [(.switch 218, [])]
  exact changeStep_newline (createdConfig_holds none 0) [] hone.2

end EspMesh
