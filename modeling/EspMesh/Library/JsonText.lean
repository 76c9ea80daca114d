import Mathlib.Data.List.Basic

/-! # JSON texts

The grammar of JSON over bytes, with the value that a text stands for. A number stands for its
own text. The bytes of a string from 128 on are taken as they come, and an escaped surrogate as a
code point of its own.

* `Derives phrase text`: the text is that of a value, of the elements of an array, or of the
  members of an object; `IsText` allows whitespace around a value.
* `scan`: whether a quote is met right behind a digit, outside of the strings. No text that is
  derived has one (`Derives.scans`).
-/

namespace JsonText
set_option autoImplicit false

inductive Value
  | null
  | bool (b : Bool)
  | number (text : List UInt8)
  | string (content : List UInt8)
  | array (values : List Value)
  | object (members : List (List UInt8 × Value))

/-! ## Leaves -/

def quote : UInt8 := 34
def backslash : UInt8 := 92
def comma : UInt8 := 44
def colon : UInt8 := 58

def IsWs (w : List UInt8) : Prop := ∀ b ∈ w, b = 32 ∨ b = 9 ∨ b = 10 ∨ b = 13

def IsDigit (d : UInt8) : Prop := 48 ≤ d ∧ d ≤ 57

instance (d : UInt8) : Decidable (IsDigit d) := inferInstanceAs (Decidable (48 ≤ d ∧ d ≤ 57))

def IsDigits (ds : List UInt8) : Prop := ds ≠ [] ∧ ∀ d ∈ ds, IsDigit d

/-- A minus, an integer without leading zeros, a fraction and an exponent. -/
inductive IsNumber : List UInt8 → Prop
  | mk {sign int frac exp : List UInt8} (hsign : sign = [] ∨ sign = [45])
      (hint : int = [48] ∨ IsDigits int ∧ int.head? ≠ some 48)
      (hfrac : frac = [] ∨ ∃ ds, IsDigits ds ∧ frac = 46 :: ds)
      (hexp : exp = [] ∨ ∃ e s ds, (e = 101 ∨ e = 69) ∧ (s = [] ∨ s = [43] ∨ s = [45]) ∧
        IsDigits ds ∧ exp = e :: (s ++ ds)) : IsNumber (sign ++ int ++ frac ++ exp)

/-- What stands behind a backslash, with the byte it is for. -/
def escapes : List (UInt8 × UInt8) :=
  [(34, 34), (92, 92), (47, 47), (98, 8), (102, 12), (110, 10), (114, 13), (116, 9)]

def hexDigit (b : UInt8) : Option ℕ :=
  if 48 ≤ b ∧ b ≤ 57 then some (b.toNat - 48)
  else if 65 ≤ b ∧ b ≤ 70 then some (b.toNat - 55)
  else if 97 ≤ b ∧ b ≤ 102 then some (b.toNat - 87)
  else none

def utf8 (n : ℕ) : List UInt8 :=
  if n < 128 then [UInt8.ofNat n]
  else if n < 2048 then [UInt8.ofNat (192 + n / 64), UInt8.ofNat (128 + n % 64)]
  else [UInt8.ofNat (224 + n / 4096), UInt8.ofNat (128 + n / 64 % 64), UInt8.ofNat (128 + n % 64)]

/-- The content of a string and its text between the quotes. -/
inductive Chars : List UInt8 → List UInt8 → Prop
  | nil : Chars [] []
  | plain {b : UInt8} {content text : List UInt8} (hb : 32 ≤ b ∧ b ≠ quote ∧ b ≠ backslash)
      (h : Chars content text) : Chars (b :: content) (b :: text)
  | escape {e b : UInt8} {content text : List UInt8} (he : (e, b) ∈ escapes)
      (h : Chars content text) : Chars (b :: content) (backslash :: e :: text)
  | unicode {d₁ d₂ d₃ d₄ : UInt8} {n₁ n₂ n₃ n₄ : ℕ} {content text : List UInt8}
      (h₁ : hexDigit d₁ = some n₁) (h₂ : hexDigit d₂ = some n₂) (h₃ : hexDigit d₃ = some n₃)
      (h₄ : hexDigit d₄ = some n₄) (h : Chars content text) :
      Chars (utf8 (4096 * n₁ + 256 * n₂ + 16 * n₃ + n₄) ++ content)
        (backslash :: 117 :: d₁ :: d₂ :: d₃ :: d₄ :: text)

def stringText (text : List UInt8) : List UInt8 := quote :: text ++ [quote]

/-! ## The grammar -/

inductive Phrase
  | value (v : Value)
  | elements (vs : List Value)
  | members (ms : List (List UInt8 × Value))

inductive Derives : Phrase → List UInt8 → Prop
  | literalNull : Derives (.value .null) [110, 117, 108, 108]
  | literalTrue : Derives (.value (.bool true)) [116, 114, 117, 101]
  | literalFalse : Derives (.value (.bool false)) [102, 97, 108, 115, 101]
  | number {text : List UInt8} (h : IsNumber text) : Derives (.value (.number text)) text
  | string {content text : List UInt8} (h : Chars content text) :
      Derives (.value (.string content)) (stringText text)
  | emptyArray {w : List UInt8} (hw : IsWs w) : Derives (.value (.array [])) (91 :: w ++ [93])
  | array {vs : List Value} {text : List UInt8} (h : Derives (.elements vs) text) :
      Derives (.value (.array vs)) (91 :: text ++ [93])
  | emptyObject {w : List UInt8} (hw : IsWs w) :
      Derives (.value (.object [])) (123 :: w ++ [125])
  | object {ms : List (List UInt8 × Value)} {text : List UInt8} (h : Derives (.members ms) text) :
      Derives (.value (.object ms)) (123 :: text ++ [125])
  | element {v : Value} {w text w' : List UInt8} (hw : IsWs w) (h : Derives (.value v) text)
      (hw' : IsWs w') : Derives (.elements [v]) (w ++ text ++ w')
  | elements {v : Value} {vs : List Value} {first rest : List UInt8}
      (h : Derives (.elements [v]) first) (hrest : Derives (.elements vs) rest) :
      Derives (.elements (v :: vs)) (first ++ comma :: rest)
  | member {name : List UInt8} {v : Value} {w text w₁ w₂ valueText w' : List UInt8} (hw : IsWs w)
      (hname : Chars name text) (hw₁ : IsWs w₁) (hw₂ : IsWs w₂)
      (h : Derives (.value v) valueText) (hw' : IsWs w') :
      Derives (.members [(name, v)])
        (w ++ stringText text ++ w₁ ++ colon :: (w₂ ++ valueText ++ w'))
  | members {m : List UInt8 × Value} {ms : List (List UInt8 × Value)} {first rest : List UInt8}
      (h : Derives (.members [m]) first) (hrest : Derives (.members ms) rest) :
      Derives (.members (m :: ms)) (first ++ comma :: rest)

def IsText (v : Value) (text : List UInt8) : Prop :=
  ∃ w t w', IsWs w ∧ Derives (.value v) t ∧ IsWs w' ∧ text = w ++ t ++ w'

/-! ## Quotes behind digits -/

/-- Outside of the strings, with whether the last byte was a digit; inside a string; behind a
backslash in it. -/
inductive ScanState
  | outside (digit : Bool)
  | inside
  | escaped
  deriving DecidableEq

def scanByte : ScanState → UInt8 → Option ScanState
  | .outside digit, b =>
    if b = quote then if digit then none else some .inside
    else some (.outside (decide (IsDigit b)))
  | .inside, b =>
    if b = quote then some (.outside false)
    else if b = backslash then some .escaped
    else some .inside
  | .escaped, _ => some .inside

def scan : ScanState → List UInt8 → Option ScanState
  | s, [] => some s
  | s, b :: bs => (scanByte s b).bind fun s => scan s bs

theorem scan_append (s : ScanState) (as bs : List UInt8) :
    scan s (as ++ bs) = (scan s as).bind fun s => scan s bs := by
  induction as generalizing s with
  | nil => rfl
  | cons a as ih =>
    rw [List.cons_append, scan, scan]
    cases scanByte s a with
    | none => rfl
    | some s => exact ih s

/-- Bytes that are no quotes stay outside. -/
theorem scan_outside {bs : List UInt8} (h : ∀ b ∈ bs, b ≠ quote) (digit : Bool) :
    ∃ digit', scan (.outside digit) bs = some (.outside digit') := by
  induction bs generalizing digit with
  | nil => exact ⟨digit, rfl⟩
  | cons b bs ih =>
    rw [scan, scanByte, if_neg (h b List.mem_cons_self)]
    exact ih (fun b hb => h b (List.mem_cons_of_mem _ hb)) _

theorem IsWs.ne_quote {w : List UInt8} (hw : IsWs w) : ∀ b ∈ w, b ≠ quote := by
  intro b hb
  rcases hw b hb with rfl | rfl | rfl | rfl <;> decide

theorem scan_ws {w : List UInt8} (hw : IsWs w) :
    scan (.outside false) w = some (.outside false) := by
  induction w with
  | nil => rfl
  | cons b w ih =>
    have hb : scanByte (.outside false) b = some (.outside false) := by
      rcases hw b List.mem_cons_self with rfl | rfl | rfl | rfl <;> rfl
    rw [scan, hb]
    exact ih fun b hb => hw b (List.mem_cons_of_mem _ hb)

/-- Whitespace and one more byte that is neither a digit nor a quote. -/
theorem scan_ws_separator {w : List UInt8} (hw : IsWs w) (digit : Bool) {b : UInt8}
    (hb : b ≠ quote ∧ ¬ IsDigit b) (rest : List UInt8) :
    scan (.outside digit) (w ++ b :: rest) = scan (.outside false) rest := by
  obtain ⟨digit', hscan⟩ := scan_outside hw.ne_quote digit
  rw [scan_append, hscan, Option.bind_some, scan, scanByte, if_neg hb.1, decide_eq_false hb.2,
    Option.bind_some]

theorem IsDigits.ne_quote {ds : List UInt8} (h : IsDigits ds) : ∀ d ∈ ds, d ≠ quote := by
  rintro d hd rfl
  exact absurd (h.2 quote hd) (by decide)

theorem IsNumber.bytes {text : List UInt8} (h : IsNumber text) :
    ∀ b ∈ text, IsDigit b ∨ b ∈ [43, 45, 46, 69, 101] := by
  have hnone : ∀ b ∈ ([] : List UInt8), IsDigit b ∨ b ∈ [43, 45, 46, 69, 101] :=
    fun _ hb => absurd hb List.not_mem_nil
  have hrun {ds : List UInt8} (hds : IsDigits ds) :
      ∀ b ∈ ds, IsDigit b ∨ b ∈ [43, 45, 46, 69, 101] := fun b hb => .inl (hds.2 b hb)
  obtain ⟨hsign, hint, hfrac, hexp⟩ := h
  simp only [List.forall_mem_append]
  refine ⟨⟨⟨?_, ?_⟩, ?_⟩, ?_⟩
  · rcases hsign with rfl | rfl
    · exact hnone
    · exact List.forall_mem_singleton.mpr (by decide)
  · rcases hint with rfl | ⟨hdigits, -⟩
    · exact List.forall_mem_singleton.mpr (by decide)
    · exact hrun hdigits
  · rcases hfrac with rfl | ⟨ds, hds, rfl⟩
    · exact hnone
    · exact List.forall_mem_cons.mpr ⟨by decide, hrun hds⟩
  · rcases hexp with rfl | ⟨e, s, ds, he, hs, hds, rfl⟩
    · exact hnone
    · refine List.forall_mem_cons.mpr ⟨?_, List.forall_mem_append.mpr ⟨?_, hrun hds⟩⟩
      · rcases he with rfl | rfl <;> decide
      · rcases hs with rfl | rfl | rfl
        · exact hnone
        · exact List.forall_mem_singleton.mpr (by decide)
        · exact List.forall_mem_singleton.mpr (by decide)

theorem IsNumber.ne_quote {text : List UInt8} (h : IsNumber text) : ∀ b ∈ text, b ≠ quote := by
  rintro b hb rfl
  exact absurd (h.bytes quote hb) (by decide)

theorem hexDigit_plain {d : UInt8} {n : ℕ} (h : hexDigit d = some n) :
    d ≠ quote ∧ d ≠ backslash := by
  constructor
  · rintro rfl
    cases h
  · rintro rfl
    cases h

theorem scanByte_plain {b : UInt8} (h : b ≠ quote ∧ b ≠ backslash) :
    scanByte .inside b = some .inside := by
  rw [scanByte, if_neg h.1, if_neg h.2]

theorem Chars.scans {content text : List UInt8} (h : Chars content text) :
    scan .inside text = some .inside := by
  induction h with
  | nil => rfl
  | plain hb _ ih =>
    rw [scan, scanByte_plain hb.2]
    exact ih
  | escape _ _ ih => exact ih
  | unicode h₁ h₂ h₃ h₄ _ ih =>
    have hhex {d : UInt8} {n : ℕ} (hd : hexDigit d = some n) (rest : List UInt8) :
        scan .inside (d :: rest) = scan .inside rest := by
      rw [scan, scanByte_plain (hexDigit_plain hd), Option.bind_some]
    exact (hhex h₁ _).trans ((hhex h₂ _).trans ((hhex h₃ _).trans ((hhex h₄ _).trans ih)))

theorem scan_stringText {content text : List UInt8} (h : Chars content text) :
    scan (.outside false) (stringText text) = some (.outside false) := by
  have hopen : scanByte (.outside false) quote = some .inside := rfl
  rw [stringText, List.cons_append, scan, hopen, Option.bind_some, scan_append, h.scans]
  rfl

theorem scan_bracketed {l r : UInt8} {text : List UInt8} (hl : l ≠ quote ∧ ¬ IsDigit l)
    (hr : r ≠ quote ∧ ¬ IsDigit r)
    (h : ∃ digit, scan (.outside false) text = some (.outside digit)) :
    ∃ digit, scan (.outside false) (l :: text ++ [r]) = some (.outside digit) := by
  obtain ⟨digit, hscan⟩ := h
  refine ⟨false, ?_⟩
  have hopen := scan_ws_separator (w := []) (fun _ h => absurd h List.not_mem_nil) false hl
  have hclose := scan_ws_separator (w := []) (fun _ h => absurd h List.not_mem_nil) digit hr []
  rw [List.nil_append] at hclose
  rw [List.cons_append, ← List.nil_append (l :: _), hopen, scan_append, hscan, Option.bind_some,
    hclose, scan]

theorem scan_separated {first rest : List UInt8}
    (h : ∃ digit, scan (.outside false) first = some (.outside digit))
    (hrest : ∃ digit, scan (.outside false) rest = some (.outside digit)) :
    ∃ digit, scan (.outside false) (first ++ comma :: rest) = some (.outside digit) := by
  obtain ⟨digit, hscan⟩ := h
  obtain ⟨digit', hscan'⟩ := hrest
  refine ⟨digit', ?_⟩
  have hcomma := scan_ws_separator (w := []) (b := comma)
    (fun _ h => absurd h List.not_mem_nil) digit (by decide) rest
  rw [List.nil_append] at hcomma
  rw [scan_append, hscan, Option.bind_some, hcomma, hscan']

/-- **No text of JSON has a quote right behind a digit**, outside of its strings. -/
theorem Derives.scans {phrase : Phrase} {text : List UInt8} (h : Derives phrase text) :
    ∃ digit, scan (.outside false) text = some (.outside digit) := by
  induction h with
  | literalNull => exact ⟨false, rfl⟩
  | literalTrue => exact ⟨false, rfl⟩
  | literalFalse => exact ⟨false, rfl⟩
  | number h => exact scan_outside h.ne_quote false
  | string h => exact ⟨false, scan_stringText h⟩
  | emptyArray hw =>
    exact ⟨false, (scan_ws_separator hw false (by decide) []).trans rfl⟩
  | array _ ih => exact scan_bracketed (by decide) (by decide) ih
  | emptyObject hw =>
    exact ⟨false, (scan_ws_separator hw false (by decide) []).trans rfl⟩
  | object _ ih => exact scan_bracketed (by decide) (by decide) ih
  | element hw _ hw' ih =>
    obtain ⟨digit, hvalue⟩ := ih
    obtain ⟨digit', hbehind⟩ := scan_outside hw'.ne_quote digit
    refine ⟨digit', ?_⟩
    rw [List.append_assoc, scan_append, scan_ws hw, Option.bind_some, scan_append, hvalue,
      Option.bind_some, hbehind]
  | elements _ _ ih ihrest => exact scan_separated ih ihrest
  | member hw hname hw₁ hw₂ _ hw' ih =>
    obtain ⟨digit, hvalue⟩ := ih
    obtain ⟨digit', hbehind⟩ := scan_outside hw'.ne_quote digit
    refine ⟨digit', ?_⟩
    rw [List.append_assoc, List.append_assoc, scan_append, scan_ws hw, Option.bind_some,
      scan_append, scan_stringText hname, Option.bind_some,
      scan_ws_separator hw₁ false (by decide), List.append_assoc, scan_append, scan_ws hw₂,
      Option.bind_some, scan_append, hvalue, Option.bind_some, hbehind]
  | members _ _ ih ihrest => exact scan_separated ih ihrest

theorem IsText.scans {v : Value} {text : List UInt8} (h : IsText v text) :
    ∃ digit, scan (.outside false) text = some (.outside digit) := by
  obtain ⟨w, t, w', hw, ht, hw', rfl⟩ := h
  obtain ⟨digit, hvalue⟩ := ht.scans
  obtain ⟨digit', hbehind⟩ := scan_outside hw'.ne_quote digit
  refine ⟨digit', ?_⟩
  rw [List.append_assoc, scan_append, scan_ws hw, Option.bind_some, scan_append, hvalue,
    Option.bind_some, hbehind]

theorem scan_digits {ds : List UInt8} (h : IsDigits ds) (digit : Bool) :
    scan (.outside digit) ds = some (.outside true) := by
  obtain ⟨hne, hdigits⟩ := h
  induction ds generalizing digit with
  | nil => exact absurd rfl hne
  | cons d ds ih =>
    have hd : IsDigit d := hdigits d List.mem_cons_self
    have hquote : d ≠ quote := by
      rintro rfl
      exact absurd hd (by decide)
    rw [scan, scanByte, if_neg hquote, decide_eq_true hd, Option.bind_some]
    cases ds with
    | nil => rfl
    | cons d' ds =>
      exact ih _ (List.cons_ne_nil _ _) fun b hb => hdigits b (List.mem_cons_of_mem _ hb)

/-! ## Texts without whitespace -/

theorem isWs_nil : IsWs [] := fun _ h => absurd h List.not_mem_nil

/-- Characters that stand for themselves. -/
def IsPlain (text : List UInt8) : Prop := ∀ b ∈ text, 32 ≤ b ∧ b ≠ quote ∧ b ≠ backslash

instance (text : List UInt8) : Decidable (IsPlain text) := List.decidableBAll _ text

theorem IsPlain.ne_zero {text : List UInt8} (h : IsPlain text) : ∀ b ∈ text, b ≠ 0 := by
  rintro b hb rfl
  exact absurd (h 0 hb).1 (by decide)

theorem chars_plain {text : List UInt8} (h : IsPlain text) : Chars text text := by
  induction text with
  | nil => exact .nil
  | cons b text ih =>
    exact .plain (h b List.mem_cons_self) (ih fun b hb => h b (List.mem_cons_of_mem _ hb))

theorem derives_member {name text valueText : List UInt8} {v : Value} (hname : Chars name text)
    (h : Derives (.value v) valueText) :
    Derives (.members [(name, v)]) (stringText text ++ colon :: valueText) := by
  have hmember := Derives.member isWs_nil hname isWs_nil isWs_nil h isWs_nil
  simpa using hmember

end JsonText
