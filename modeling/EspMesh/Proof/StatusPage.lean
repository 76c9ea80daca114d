import EspMesh.Model.StatusPage
import Mathlib.Tactic.IntervalCases

/-! # The status page is no JSON

A page is the texts of its fields one behind the other. The two fields in front of the brightness
are members of an object, and so are the others together; but there is no comma between the two,
so a digit meets the quote of the next name, which no text of JSON allows.
-/

namespace EspMesh
set_option autoImplicit false
open ByteMem LineFile JsonText

/-! ## What is printed -/

theorem isDigit_ofNat {n : ℕ} (hn : n < 10) : IsDigit (UInt8.ofNat (48 + n)) := by
  interval_cases n <;> decide

theorem printUnsigned_digits (n : ℕ) : IsDigits (printUnsigned n) := by
  fun_induction printUnsigned n with
  | case1 n hn => exact ⟨List.cons_ne_nil _ _, by simpa using isDigit_ofNat hn⟩
  | case2 n hn ih =>
    refine ⟨by simp, List.forall_mem_append.mpr ⟨ih.2, ?_⟩⟩
    simpa using isDigit_ofNat (Nat.mod_lt n (by decide))

theorem printUnsigned_head {n : ℕ} (h : n ≠ 0) : (printUnsigned n).head? ≠ some 48 := by
  fun_induction printUnsigned n with
  | case1 n hn =>
    interval_cases n
    · exact absurd rfl h
    all_goals decide
  | case2 n hn ih =>
    have hne := (printUnsigned_digits (n / 10)).1
    rw [List.head?_append_of_ne_nil _ hne]
    exact ih (by omega)

theorem printUnsigned_length {n k : ℕ} (hk : 0 < k) (h : n < 10 ^ k) :
    (printUnsigned n).length ≤ k := by
  induction k generalizing n with
  | zero => exact absurd hk (lt_irrefl 0)
  | succ k ih =>
    rw [printUnsigned]
    split
    · exact hk
    · rw [List.length_append, List.length_singleton]
      have hpos : 0 < k := by
        refine Nat.pos_of_ne_zero ?_
        rintro rfl
        omega
      have hdiv : n / 10 < 10 ^ k := by
        rw [Nat.pow_succ] at h
        omega
      exact Nat.succ_le_succ (ih hpos hdiv)

theorem printUnsigned_number (n : ℕ) : IsNumber (printUnsigned n) := by
  have hint : printUnsigned n = [48] ∨
      IsDigits (printUnsigned n) ∧ (printUnsigned n).head? ≠ some 48 := by
    by_cases h : n = 0
    · rw [h]
      exact .inl (by simp [printUnsigned])
    · exact .inr ⟨printUnsigned_digits n, printUnsigned_head h⟩
  have hnumber := IsNumber.mk (.inl rfl) hint (.inl rfl) (.inl rfl)
  simpa using hnumber

theorem printSigned_number (z : ℤ) : IsNumber (printSigned z) := by
  unfold printSigned
  split
  · have hint : printUnsigned z.natAbs = [48] ∨ IsDigits (printUnsigned z.natAbs) ∧
        (printUnsigned z.natAbs).head? ≠ some 48 :=
      .inr ⟨printUnsigned_digits _, printUnsigned_head (by omega)⟩
    have hnumber := IsNumber.mk (.inr rfl) hint (.inl rfl) (.inl rfl)
    simpa using hnumber
  · exact printUnsigned_number _

theorem printSigned_length {z : ℤ} (hlow : -1000 < z) (hhigh : z < 1000) :
    (printSigned z).length ≤ 4 := by
  have hlen : (printUnsigned z.natAbs).length ≤ 3 :=
    printUnsigned_length (by decide) (by omega)
  unfold printSigned
  split
  · exact Nat.succ_le_succ hlen
  · exact hlen.trans (Nat.le_succ 3)

/-! ## The response, call by call -/

/-- What has been written so far; the NUL of the last call may lie behind it. -/
structure Written (r : JsonResponse) (text : List UInt8) : Prop where
  pos : r.p = text.length
  bytes : r.json.load 0 r.p = text
  inside : Mem.Inside 0 (r.p + 1) r.json

section Calls
variable {r : JsonResponse} {text : List UInt8}

theorem inside_mono {hi hi' : ℕ} {m : Mem} (h : Mem.Inside 0 hi m) (hle : hi ≤ hi') :
    Mem.Inside 0 hi' m := fun s hs => ⟨(h s hs).1, (h s hs).2.trans hle⟩

theorem Written.sprintf (h : Written r text) (piece : List UInt8) :
    Written (r.sprintf piece) (text ++ piece) where
  pos := by
    rw [JsonResponse.sprintf, h.pos, List.length_append]
  bytes := by
    have hall := Mem.load_store_next h.bytes r.p (r.p + piece.length + 1) (piece ++ [0])
      (Nat.zero_add _).symm (by simp [Nat.add_assoc])
    have htake := congrArg (List.take (r.p + piece.length)) hall
    rw [Mem.load_take _ _ _ _ (Nat.le_succ _), ← List.append_assoc] at htake
    refine htake.trans (List.take_left' ?_)
    rw [List.length_append, ← h.pos]
  inside := by
    refine (Mem.inside_store _ _ _ _ _).mpr ⟨⟨Nat.zero_le _, ?_⟩, inside_mono h.inside ?_⟩
    · simp [JsonResponse.sprintf, Nat.add_assoc]
    · simp [JsonResponse.sprintf]

theorem Written.put (h : Written r text) (b : UInt8) : Written (r.put b) (text ++ [b]) where
  pos := by
    rw [JsonResponse.put, h.pos, List.length_append, List.length_singleton]
  bytes := Mem.load_store_next h.bytes r.p (r.p + 1) [b] (Nat.zero_add _).symm rfl
  inside := by
    refine (Mem.inside_store _ _ _ _ _).mpr ⟨⟨Nat.zero_le _, ?_⟩, inside_mono h.inside ?_⟩
    · simp [JsonResponse.put]
    · simp [JsonResponse.put]

theorem Written.sprintfs (h : Written r text) (pieces : List (List UInt8)) :
    Written (pieces.foldl JsonResponse.sprintf r) (text ++ pieces.flatten) := by
  induction pieces generalizing r text with
  | nil => simpa using h
  | cons piece pieces ih =>
    rw [List.foldl_cons, List.flatten_cons, ← List.append_assoc]
    exact ih (h.sprintf piece)

end Calls

/-! ## The page -/

section Page
variable (s : CameraStatus) (fopenOk : Bool) (fs : Spiffs) (bytes : ℕ → UInt8)

def sensorText : List UInt8 := ((sensorFields s).map JsonField.text).flatten

/-- The page in front of its last brace. -/
def pageText : List UInt8 :=
  [123] ++ sensorText s ++
    (if (getSystemConfig fopenOk fs SystemConfig.zero).1 = 0 then
      (configTexts (getSystemConfig fopenOk fs SystemConfig.zero).2).flatten else [])

theorem statusHandler_written : Written (statusHandler s fopenOk fs bytes)
    (pageText s fopenOk fs ++ [125] ++ [0]) := by
  have hstart : Written ⟨⟨bytes, []⟩, 0⟩ [] :=
    ⟨rfl, rfl, fun _ h => absurd h List.not_mem_nil⟩
  have hsensor := (hstart.put 123).sprintfs ((sensorFields s).map JsonField.text)
  unfold statusHandler pageText
  dsimp only
  split
  · exact ((hsensor.sprintfs _).put 125).put 0
  · rw [List.append_nil]
    exact (hsensor.put 125).put 0

end Page

/-! ## The fields of the sensor -/

/-- What stands behind a value. -/
def IsSep (sep : List UInt8) : Prop := sep = [] ∨ sep = [comma]

theorem IsSep.ne_zero {sep : List UInt8} (h : IsSep sep) : ∀ b ∈ sep, b ≠ 0 := by
  rcases h with rfl | rfl
  · exact fun _ h => absurd h List.not_mem_nil
  · exact List.forall_mem_singleton.mpr (by decide)

theorem IsSep.length_le {sep : List UInt8} (h : IsSep sep) : sep.length ≤ 1 := by
  rcases h with rfl | rfl <;> decide

/-- A name that needs no escape, a number, and a comma or nothing; not long. -/
structure JsonField.Plain (f : JsonField) : Prop where
  name : IsPlain f.name
  value : IsNumber f.value
  sep : IsSep f.sep
  short : f.name.length + f.value.length ≤ 19

theorem plain_unsigned {name sep : List UInt8} {n k : ℕ} (hname : IsPlain name)
    (hsep : IsSep sep) (hk : 0 < k) (hn : n < 10 ^ k) (hlen : name.length + k ≤ 19) :
    JsonField.Plain ⟨name, printUnsigned n, sep⟩ where
  name := hname
  value := printUnsigned_number n
  sep := hsep
  short := (Nat.add_le_add_left (printUnsigned_length hk hn) _).trans hlen

theorem plain_byte {name sep : List UInt8} (b : UInt8) (hname : IsPlain name) (hsep : IsSep sep)
    (hlen : name.length + 3 ≤ 19) : JsonField.Plain ⟨name, printUnsigned b.toNat, sep⟩ :=
  plain_unsigned hname hsep (by decide) (b.toNat_lt.trans (by decide)) hlen

theorem plain_signed {name sep : List UInt8} (z : Int8) (hname : IsPlain name) (hsep : IsSep sep)
    (hlen : name.length + 4 ≤ 19) : JsonField.Plain ⟨name, printSigned z.toInt, sep⟩ where
  name := hname
  value := printSigned_number _
  sep := hsep
  short := by
    have hlow := z.le_toInt
    have hhigh := z.toInt_lt
    exact (Nat.add_le_add_left (printSigned_length (by omega) (by omega)) _).trans hlen

theorem sensorFields_plain (s : CameraStatus) : ∀ f ∈ sensorFields s, f.Plain := by
  have hframesize : JsonField.Plain
      ⟨ofString "framesize", printUnsigned s.framesize.toNat, [comma]⟩ :=
    plain_unsigned (by decide) (.inr rfl) (by decide : 0 < 10)
      (s.framesize.toNat_lt.trans (by decide)) (by decide)
  have haecValue : JsonField.Plain
      ⟨ofString "aec_value", printUnsigned s.aecValue.toNat, [comma]⟩ :=
    plain_unsigned (by decide) (.inr rfl) (by decide : 0 < 5)
      (s.aecValue.toNat_lt.trans (by decide)) (by decide)
  simp only [sensorFields, List.forall_mem_cons, hframesize, haecValue, List.not_mem_nil,
    false_imp_iff, implies_true, and_true, true_and]
  repeat' apply And.intro
  all_goals
    first
    | exact plain_byte _ (by decide) (.inr rfl) (by decide)
    | exact plain_byte _ (by decide) (.inl rfl) (by decide)
    | exact plain_signed _ (by decide) (.inr rfl) (by decide)

def JsonField.member (f : JsonField) : List UInt8 × Value := (f.name, .number f.value)

/-- Fields with a comma behind each but the last. -/
theorem derives_fields (fs : List JsonField) (last : JsonField)
    (hfs : ∀ f ∈ fs, f.Plain ∧ f.sep = [comma]) (hlast : last.Plain ∧ last.sep = []) :
    Derives (.members ((fs ++ [last]).map JsonField.member))
      ((fs ++ [last]).map JsonField.text).flatten := by
  have hmember {f : JsonField} (hf : f.Plain) :
      Derives (.members [f.member]) (stringText f.name ++ colon :: f.value) :=
    derives_member (chars_plain hf.name) (.number hf.value)
  induction fs with
  | nil =>
    have htext : (([] ++ [last]).map JsonField.text).flatten =
        stringText last.name ++ colon :: last.value := by
      simp [JsonField.text, hlast.2]
    rw [htext]
    exact hmember hlast.1
  | cons f fs ih =>
    obtain ⟨⟨hplain, hsep⟩, hfs⟩ := List.forall_mem_cons.mp hfs
    have htext : f.text = stringText f.name ++ colon :: f.value ++ [comma] := by
      rw [JsonField.text, hsep]
    rw [List.cons_append, List.map_cons, List.map_cons, List.flatten_cons, htext,
      List.append_assoc, List.singleton_append]
    exact .members (hmember hplain) (ih hfs)

/-- The fields on each side of the missing comma are members. -/
theorem sensorFields_members (s : CameraStatus) :
    Derives (.members (((sensorFields s).take 2).map JsonField.member))
        (((sensorFields s).take 2).map JsonField.text).flatten ∧
      Derives (.members (((sensorFields s).drop 2).map JsonField.member))
        (((sensorFields s).drop 2).map JsonField.text).flatten := by
  have hplain := sensorFields_plain s
  simp only [sensorFields, List.forall_mem_cons] at hplain
  constructor
  · exact derives_fields [_] _ (by simp [hplain]) ⟨by simp [hplain], rfl⟩
  · exact derives_fields [_, _, _, _, _, _, _, _, _, _, _, _, _, _, _, _, _, _, _, _, _] _
      (by simp [hplain]) ⟨by simp [hplain], rfl⟩

/-! ## Nothing but the page is sent -/

theorem JsonField.text_ne_zero {f : JsonField} (hname : IsPlain f.name)
    (hvalue : ∀ b ∈ f.value, b ≠ 0) (hsep : IsSep f.sep) : ∀ b ∈ f.text, b ≠ 0 := by
  have hnone : ∀ b ∈ ([] : List UInt8), b ≠ 0 := fun _ h => absurd h List.not_mem_nil
  simp only [JsonField.text, stringText, List.forall_mem_append, List.forall_mem_cons]
  exact ⟨⟨⟨⟨by decide, hname.ne_zero⟩, by decide, hnone⟩, by decide, hvalue⟩, hsep.ne_zero⟩

theorem JsonField.text_length {f : JsonField} (hsep : IsSep f.sep) :
    f.text.length ≤ f.name.length + f.value.length + 4 := by
  have hlen := hsep.length_le
  simp only [JsonField.text, stringText, List.length_append, List.length_cons, List.length_nil]
  omega

theorem flatten_length_le {k : ℕ} {ls : List (List UInt8)} (h : ∀ l ∈ ls, l.length ≤ k) :
    ls.flatten.length ≤ ls.length * k := by
  induction ls with
  | nil => exact Nat.zero_le _
  | cons l ls ih =>
    obtain ⟨hl, hls⟩ := List.forall_mem_cons.mp h
    have hrest := ih hls
    rw [List.flatten_cons, List.length_append, List.length_cons, Nat.succ_mul]
    omega

section Sensor
variable (s : CameraStatus)

theorem sensorText_ne_zero : ∀ b ∈ sensorText s, b ≠ 0 := by
  intro b hb
  obtain ⟨piece, hpiece, hbyte⟩ := List.mem_flatten.mp hb
  obtain ⟨f, hf, rfl⟩ := List.mem_map.mp hpiece
  have hplain := sensorFields_plain s f hf
  refine JsonField.text_ne_zero hplain.name ?_ hplain.sep b hbyte
  rintro b hb rfl
  exact absurd (hplain.value.bytes 0 hb) (by decide)

theorem sensorText_length : (sensorText s).length ≤ 552 := by
  have hpieces : ∀ piece ∈ (sensorFields s).map JsonField.text, piece.length ≤ 23 := by
    intro piece hpiece
    obtain ⟨f, hf, rfl⟩ := List.mem_map.mp hpiece
    have hplain := sensorFields_plain s f hf
    exact (JsonField.text_length hplain.sep).trans (Nat.add_le_add_right hplain.short 4)
  have hlen := flatten_length_le hpieces
  rwa [List.length_map, show (sensorFields s).length = 24 from rfl] at hlen

end Sensor

section Config
variable {c : SystemConfig}

theorem configText_ne_zero (it : ConfigItem) {sep : List UInt8} (hsep : IsSep sep) :
    ∀ b ∈ configText c it sep, b ≠ 0 := by
  have hname : IsPlain it.name := by cases it <;> decide
  exact JsonField.text_ne_zero hname (cstr_no_nul (c it)) hsep

theorem configTexts_ne_zero : ∀ b ∈ (configTexts c).flatten, b ≠ 0 := by
  intro b hb
  obtain ⟨piece, hpiece, hbyte⟩ := List.mem_flatten.mp hb
  revert piece
  simp only [configTexts, List.forall_mem_cons]
  have hfirst : b ∈ comma :: configText c .routerSsid [comma] → b ≠ 0 := by
    intro hbyte
    rcases List.mem_cons.mp hbyte with rfl | hbyte
    · decide
    · exact configText_ne_zero _ (.inr rfl) b hbyte
  exact ⟨hfirst, configText_ne_zero _ (.inr rfl) b, configText_ne_zero _ (.inr rfl) b,
    configText_ne_zero _ (.inr rfl) b, configText_ne_zero _ (.inr rfl) b,
    configText_ne_zero _ (.inr rfl) b, configText_ne_zero _ (.inl rfl) b,
    fun _ h => absurd h List.not_mem_nil⟩

/-- A field has a NUL, its last byte at the latest. -/
def FieldsEnd (c : SystemConfig) : Prop := ∀ it, 0 ∈ c it ∧ (c it).length ≤ it.size

theorem fieldsEnd_setItems (line value : List UInt8) (h : FieldsEnd c) :
    FieldsEnd (setItems line value c) := by
  intro it
  unfold setItems
  split
  · rw [copyField]
    refine ⟨List.mem_append_right _ List.mem_cons_self, ?_⟩
    have hpos : 0 < it.size := by cases it <;> decide
    rw [List.length_append, List.length_take, List.length_singleton]
    omega
  · exact h it

theorem fieldsEnd_getLoop (n : ℕ) (file : List UInt8) (h : FieldsEnd c) :
    FieldsEnd (getLoop n file c).2 := by
  induction n generalizing file c with
  | zero => exact h
  | succ n ih =>
    rw [getLoop]
    dsimp only
    split
    · exact h
    · exact ih _ (fieldsEnd_setItems _ _ h)

theorem fieldsEnd_getSystemConfig (fopenOk : Bool) (fs : Spiffs) :
    FieldsEnd (getSystemConfig fopenOk fs SystemConfig.zero).2 := by
  have hzero : FieldsEnd SystemConfig.zero := by
    intro it
    cases it <;> decide
  unfold getSystemConfig
  split
  · exact fieldsEnd_getLoop _ _ hzero
  · exact hzero

theorem configText_length (h : FieldsEnd c) (it : ConfigItem) {sep : List UInt8}
    (hsep : IsSep sep) : (configText c it sep).length ≤ 47 := by
  have hvalue := (cstr_length_lt (h it).1).trans_le (h it).2
  have htext := JsonField.text_length (f := ⟨it.name, cstr (c it), sep⟩) hsep
  have hname : it.name.length + it.size ≤ 43 + 1 := by cases it <;> decide
  refine htext.trans ?_
  dsimp only
  omega

theorem configTexts_length (h : FieldsEnd c) : (configTexts c).flatten.length ≤ 336 := by
  have hpiece (it : ConfigItem) {sep : List UInt8} (hsep : IsSep sep) :
      (configText c it sep).length ≤ 48 := (configText_length h it hsep).trans (Nat.le_succ 47)
  have hpieces : ∀ piece ∈ configTexts c, piece.length ≤ 48 := by
    simp only [configTexts, List.forall_mem_cons]
    exact ⟨Nat.succ_le_succ (configText_length h _ (.inr rfl)), hpiece _ (.inr rfl),
      hpiece _ (.inr rfl), hpiece _ (.inr rfl), hpiece _ (.inr rfl), hpiece _ (.inr rfl),
      hpiece _ (.inl rfl), fun _ h => absurd h List.not_mem_nil⟩
  have hlen := flatten_length_le hpieces
  rwa [show (configTexts c).length = 7 from rfl] at hlen

end Config

section Sent
variable (s : CameraStatus) (fopenOk : Bool) (fs : Spiffs) (bytes : ℕ → UInt8)

theorem statusHandler_sent : (statusHandler s fopenOk fs bytes).sent =
    pageText s fopenOk fs ++ [125] := by
  have hne : ∀ b ∈ pageText s fopenOk fs ++ [125], b ≠ 0 := by
    simp only [pageText, List.forall_mem_append, List.forall_mem_singleton]
    refine ⟨⟨⟨by decide, sensorText_ne_zero s⟩, ?_⟩, by decide⟩
    split
    · exact configTexts_ne_zero
    · exact fun _ h => absurd h List.not_mem_nil
  rw [JsonResponse.sent, (statusHandler_written s fopenOk fs bytes).bytes]
  exact cstr_append_nul hne []

/-- The page and its NUL fit, whatever the sensor and the configuration are. -/
theorem statusHandler_fits : Mem.Inside 0 1024 (statusHandler s fopenOk fs bytes).json := by
  have hwritten := statusHandler_written s fopenOk fs bytes
  have hsensor := sensorText_length s
  have hconfig := configTexts_length (fieldsEnd_getSystemConfig fopenOk fs)
  refine inside_mono hwritten.inside ?_
  rw [hwritten.pos, pageText]
  simp only [List.length_append, List.length_singleton]
  split
  · omega
  · rw [List.length_nil]
    omega

end Sent

/-! ## Main result -/

/-- The members that the page should have: the fields of the sensor, and the configuration when
it was read. -/
def GivesBack (s : CameraStatus) (config : ℤ × SystemConfig)
    (members : List (List UInt8 × Value)) : Prop :=
  (∀ f ∈ sensorFields s, (f.name, .number f.value) ∈ members) ∧
    (config.1 = 0 → ∀ it ∈ configItems, (it.name, .string (cstr (config.2 it))) ∈ members)

/-- A field whose value ends with a digit. -/
theorem scan_field {name value : List UInt8} (hname : Chars name name) (hvalue : IsDigits value)
    (sep more : List UInt8) :
    scan (.outside false) (JsonField.text ⟨name, value, sep⟩ ++ more) =
      scan (.outside true) (sep ++ more) := by
  have hcolon := scan_ws_separator isWs_nil false (b := colon) (by decide)
    (value ++ (sep ++ more))
  rw [List.nil_append] at hcolon
  rw [JsonField.text, List.append_assoc, List.append_assoc, List.cons_append, scan_append,
    scan_stringText hname, Option.bind_some, hcolon, scan_append, scan_digits hvalue,
    Option.bind_some]

/-- The quote of the third name meets the last digit of the second value. -/
theorem pageText_scan (s : CameraStatus) (fopenOk : Bool) (fs : Spiffs) (rest : List UInt8) :
    scan (.outside false) (pageText s fopenOk fs ++ rest) = none := by
  have hquality : Chars (ofString "quality") (ofString "quality") := chars_plain (by decide)
  have hframesize : Chars (ofString "framesize") (ofString "framesize") :=
    chars_plain (by decide)
  have hopen (more : List UInt8) : scan (.outside false) (123 :: more) =
      scan (.outside false) more := rfl
  have hcomma (more : List UInt8) : scan (.outside true) (comma :: more) =
      scan (.outside false) more := rfl
  have hquote (more : List UInt8) : scan (.outside true) (quote :: more) = none := rfl
  simp only [pageText, sensorText, sensorFields, List.map_cons, List.flatten_cons,
    List.append_assoc, List.cons_append, List.nil_append]
  rw [hopen, scan_field hframesize (printUnsigned_digits _), List.singleton_append, hcomma,
    scan_field hquality (printUnsigned_digits _), List.nil_append, JsonField.text, stringText,
    List.cons_append, List.cons_append, List.cons_append, List.cons_append, hquote]

theorem statusHandler_not_text (s : CameraStatus) (fopenOk : Bool) (fs : Spiffs)
    (bytes : ℕ → UInt8) (v : Value) : ¬ IsText v (statusHandler s fopenOk fs bytes).sent := by
  intro htext
  obtain ⟨digit, hscan⟩ := htext.scans
  rw [statusHandler_sent, pageText_scan] at hscan
  cases hscan

/-- **The page is never JSON.** -/
theorem statusHandler_never_json (s : CameraStatus) (fopenOk : Bool) (fs : Spiffs)
    (bytes : ℕ → UInt8) :
    let page := statusHandler s fopenOk fs bytes
    ¬ ((∃ members, IsText (.object members) page.sent ∧
        GivesBack s (getSystemConfig fopenOk fs SystemConfig.zero) members) ∧
      Mem.Inside 0 1024 page.json) := by
  rintro page ⟨⟨members, htext, -⟩, -⟩
  exact statusHandler_not_text s fopenOk fs bytes _ htext

/-- A page of a quality of 12, and without a configuration. -/
theorem first_page_no_json :
    let s : CameraStatus := ⟨10, 12, 0, 0, 0, 0, 0, 0, 1, 1, 1, 0, 0, 168, 1, 0, 0, 0, 1, 1, 1, 0,
      1, 0⟩
    let page := statusHandler s false ⟨fun _ => none, 0⟩ fun _ => 0
    ¬ ((∃ members, IsText (.object members) page.sent ∧
        GivesBack s (getSystemConfig false ⟨fun _ => none, 0⟩ SystemConfig.zero) members) ∧
      Mem.Inside 0 1024 page.json) := by
  rintro s page ⟨⟨members, htext, -⟩, -⟩
  exact statusHandler_not_text _ _ _ _ _ htext

end EspMesh
