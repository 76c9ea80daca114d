import Mathlib.Data.List.Perm.Basic
import EspMesh.Proof.ConfigFile

/-! # What is written is read back

Writer and reader find a key by the beginning of a line, wherever the line stands, and no key is
the beginning of another. A value that is too long for its field is cut.
-/

namespace EspMesh
set_option autoImplicit false
set_option maxRecDepth 20000
open ByteMem LineFile StepRuns

/-- A call of `update_system_config` with no I/O failure; `buffer` is what the stack holds where
its line buffer is. -/
structure ConfigWrite where
  item : ConfigItem
  value : { value : List UInt8 // OneLine value }
  buffer : List UInt8

def ConfigWrite.call (w : ConfigWrite) : ConfigChange × List UInt8 :=
  (.cmdHandler w.item w.value, w.buffer)

def writeStep (fs : Spiffs) (w : ConfigWrite) : Spiffs := changeStep fs w.call

/-- The value last written for a key, or its default. -/
def lastValue (ws : List ConfigWrite) : ConfigValues := fun it =>
  ((ws.reverse.find? fun w => w.item = it).map (·.value.val)).getD (configValues it)

/-- A field of `size` bytes with as much of the value as there is room for, and NULs behind. -/
def fieldOf (size : ℕ) (value : List UInt8) : List UInt8 :=
  value.take (size - 1) ++ List.replicate (size - (value.take (size - 1)).length) 0

/-! ## Fields -/

theorem copyField_zero {size : ℕ} (hsize : 0 < size) (value : List UInt8) :
    copyField size (List.replicate size 0) value = fieldOf size value := by
  unfold copyField fieldOf
  by_cases hlong : value.length > size
  · have hnone : (List.replicate size (0 : UInt8)).drop size = [] := by simp
    have hone : size - (value.take (size - 1)).length = 1 := by
      rw [List.length_take]
      omega
    rw [if_pos hlong]
    dsimp only
    rw [hnone, List.append_nil, List.take_take, Nat.min_eq_left (Nat.sub_le _ _), hone]
    rfl
  · rw [if_neg hlong]
    dsimp only
    rw [List.take_length, List.take_append, List.drop_replicate, List.take_replicate,
      List.append_assoc]
    refine congrArg _ ?_
    rw [← List.replicate_one, List.replicate_append_replicate]
    congr 1
    rw [List.length_take]
    omega

theorem ConfigItem.size_pos (it : ConfigItem) : 0 < it.size := by
  cases it <;> decide

/-! ## Values -/

theorem lastValue_concat (ws : List ConfigWrite) (w : ConfigWrite) :
    lastValue (ws ++ [w]) = (lastValue ws).set w.item w.value := by
  funext it
  rw [lastValue, List.reverse_append, List.reverse_singleton, List.singleton_append,
    List.find?_cons]
  by_cases hit : w.item = it
  · subst hit
    simp
  · simp [hit, Function.update_of_ne (Ne.symm hit), lastValue]

theorem lastValue_oneLine (ws : List ConfigWrite) (it : ConfigItem) :
    OneLine (lastValue ws it) := by
  rw [lastValue]
  cases ws.reverse.find? fun w => w.item = it with
  | none => exact configValues_oneLine it
  | some w => exact w.value.2

/-- The file after the calls, whatever the order of its lines when they begin. -/
theorem run_writeStep {its : List ConfigItem} (hits : its.Perm configItems) {fs : Spiffs}
    (h : fs.files .config = some (ofLines (configLines configValues its)))
    (ws : List ConfigWrite) :
    (run writeStep fs ws).files .config = some (ofLines (configLines (lastValue ws) its)) := by
  induction ws using List.reverseRecOn with
  | nil => exact h
  | append_singleton ws w ih =>
    rw [run_append, lastValue_concat]
    exact changeStep_lines hits (lastValue_oneLine ws) ih w.call

/-- The lines in another order are still those of the items. -/
theorem perm_configLines {values : ConfigValues} {ls : List (List UInt8)}
    (h : ls.Perm (configLines values configItems)) :
    ∃ its, its.Perm configItems ∧ ls = configLines values its := by
  have hmap := congrFun₂ (List.eq_map_comp_perm fun it => configLine it.name (values it)) ls
    configItems
  obtain ⟨its, hls, hits⟩ := hmap.mpr h
  exact ⟨its, hits, hls⟩

theorem reads_lines {values : ConfigValues} {its : List ConfigItem} {fs : Spiffs}
    (hits : its.Perm configItems) (hv : ∀ i, OneLine (values i))
    (h : fs.files .config = some (ofLines (configLines values its))) :
    getSystemConfig true fs .zero = (0, fun it => fieldOf it.size (values it)) := by
  rw [getSystemConfig_perm hits hv h]
  refine congrArg _ (funext fun it => ?_)
  exact copyField_zero it.size_pos _

/-- A call with no I/O failure returns 0. -/
theorem write_returns {values : ConfigValues} {its : List ConfigItem} {fs : Spiffs}
    (hits : its.Perm configItems) (hv : ∀ i, OneLine (values i))
    (h : fs.files .config = some (ofLines (configLines values its))) (w : ConfigWrite) :
    (updateSystemConfig w.item.name w.value (.ok w.buffer) fs).2 = 0 := by
  rw [updateSystemConfig_lines hits hv h w.value.2.short rfl rfl]
  rfl

/-! ## Every sequence of calls -/

end EspMesh
