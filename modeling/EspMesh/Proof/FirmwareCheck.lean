import EspMesh.Library.Kmp
import EspMesh.Model.FirmwareCheck
import Mathlib.Tactic.IntervalCases

/-! # The firmware identifier

Inside a window the search is right: it remembers the longest start of the identifier that the
bytes read so far end with. What it misses lies where the windows meet, since 31 bytes of each are
not read, and behind the last of them; and a partition of one window is not searched at all.
-/

namespace EspMesh
set_option autoImplicit false
open ByteMem Kmp

/-! ## A fall -/

section Search
variable {target text : List UInt8} {next : Mem} {c : UInt8} {i j : ℕ}

/-- The table has the borders of the first `i` starts of the target. -/
def TableUpTo (target : List UInt8) (next : Mem) (i : ℕ) : Prop :=
  ∀ j, 0 < j → j ≤ i → Border target j (next.byte (j - 1)).toNat

theorem TableUpTo.mono {k : ℕ} (h : TableUpTo target next i) (hk : k ≤ i) :
    TableUpTo target next k := fun j hj hjk => h j hj (hjk.trans hk)

theorem getElem?_eq_iff_getD (hj : j < target.length) :
    target[j]? = some c ↔ target.getD j 0 = c := by
  rw [List.getD_eq_getElem _ _ hj, List.getElem?_eq_getElem hj, Option.some.injEq]

/-- A fall ends, at the longest start that can go on, or at nothing. -/
theorem kmpFall_spec (fuel : ℕ) (htable : TableUpTo target next j) (hj : j < target.length)
    (h : Candidate target text c j) (hfuel : j < fuel) :
    ∃ k, kmpFall target next c fuel j = some k ∧ k < target.length ∧
      Candidate target text c k ∧ (k = 0 ∨ target.getD k 0 = c) := by
  induction fuel generalizing j with
  | zero => exact absurd hfuel (Nat.not_lt_zero j)
  | succ fuel ih =>
    rw [kmpFall]
    by_cases hfall : j ≠ 0 ∧ target.getD j 0 ≠ c
    · rw [if_pos hfall]
      have hpos : 0 < j := Nat.pos_of_ne_zero hfall.1
      have hborder := htable j hpos (le_refl j)
      have hlt := hborder.lt hpos
      exact ih (htable.mono hlt.le) (hlt.trans hj)
        (h.fall hborder hpos (mt (getElem?_eq_iff_getD hj).mp hfall.2)) (by omega)
    · rw [if_neg hfall]
      rw [not_and_or, not_not, not_not] at hfall
      exact ⟨j, rfl, hj, h, hfall⟩

/-- A symbol is read, and the longest start is remembered again. -/
theorem kmpFall_longest (htable : TableUpTo target next j) (hj : j < target.length)
    (h : Longest target text j) (c : UInt8) :
    ∃ k, kmpFall target next c (j + 1) j = some k ∧ k < target.length ∧
      Longest target (text ++ [c]) (if target.getD k 0 = c then k + 1 else k) := by
  obtain ⟨k, hk, hlt, hcand, hend⟩ :=
    kmpFall_spec (j + 1) htable hj (h.candidate c) (Nat.lt_succ_self j)
  refine ⟨k, hk, hlt, ?_⟩
  by_cases hc : target.getD k 0 = c
  · rw [if_pos hc]
    exact hcand.matched ((getElem?_eq_iff_getD hlt).mpr hc)
  · rw [if_neg hc]
    obtain rfl := hend.resolve_right hc
    exact hcand.zero (mt (getElem?_eq_iff_getD hlt).mp hc)

/-! ## `kmp_next` -/

/-- The next entry of the table. -/
theorem tableUpTo_store {b : ℕ} (h : TableUpTo target next i) (hb : Border target (i + 1) b)
    (hbyte : b < 256) : TableUpTo target (next.store i [UInt8.ofNat b]) (i + 1) := by
  intro j hj hji
  by_cases hlast : j = i + 1
  · subst hlast
    rw [Nat.add_sub_cancel, Mem.store_byte, if_pos (by simp), Nat.sub_self, List.getD_cons_zero,
      UInt8.toNat_ofNat', Nat.mod_eq_of_lt hbyte]
    exact hb
  · rw [Mem.store_byte_off _ _ _ _ (.inl (by omega))]
    exact h j hj (by omega)

/-- The start of `i + 1` symbols without its first is that of `i` with one symbol more. -/
theorem tail_take_succ (hi : 0 < i) (hlt : i < target.length) :
    (target.take (i + 1)).tail = (target.take i).tail ++ [target.getD i 0] := by
  have hsymbol : target[i]? = some (target.getD i 0) := (getElem?_eq_iff_getD hlt).mpr rfl
  rw [take_succ_of_getElem? hsymbol, List.tail_append_of_ne_nil]
  intro hnil
  have hlen := congrArg List.length hnil
  rw [List.length_take, List.length_nil] at hlen
  omega

theorem kmpNextLoop_spec (hshort : target.length ≤ 256) (n : ℕ) (hi : 0 < i)
    (hn : i + n = target.length) (h : Border target i j) (htable : TableUpTo target next i)
    (hinside : Mem.Inside 0 target.length next) :
    ∃ next', kmpNextLoop target n i j next = some next' ∧
      TableUpTo target next' target.length ∧ Mem.Inside 0 target.length next' := by
  induction n generalizing i j next with
  | zero => exact ⟨next, rfl, htable.mono (by omega), hinside⟩
  | succ n ih =>
    have hlt : i < target.length := by omega
    have hji : j < i := h.lt hi
    obtain ⟨k, hk, hklt, hlongest⟩ := kmpFall_longest (htable.mono hji.le) (hji.trans hlt) h
      (target.getD i 0)
    rw [← tail_take_succ hi hlt] at hlongest
    have hborder : Border target (i + 1) _ := hlongest
    have hb := hborder.lt (Nat.succ_pos i)
    rw [kmpNextLoop, hk]
    refine ih (Nat.succ_pos i) (by omega) hborder (tableUpTo_store htable hborder (by omega)) ?_
    refine (Mem.inside_store _ _ _ _ _).mpr ⟨⟨Nat.zero_le i, ?_⟩, hinside⟩
    rw [List.length_singleton]
    omega

/-- The table is that of the borders, and nothing but the table is written. -/
theorem kmpNext_spec (target : List UInt8) (hpos : 0 < target.length)
    (hshort : target.length ≤ 256) (bytes : ℕ → UInt8) :
    ∃ next, kmpNext target ⟨bytes, []⟩ = some next ∧ TableUpTo target next target.length ∧
      Mem.Inside 0 target.length next := by
  refine kmpNextLoop_spec hshort _ Nat.one_pos (by omega) border_one ?_ ?_
  · intro j hj hj1
    obtain rfl : j = 1 := by omega
    exact border_one
  · refine (Mem.inside_store _ _ _ _ _).mpr ⟨⟨le_refl 0, ?_⟩, fun _ h => absurd h List.not_mem_nil⟩
    rw [List.length_singleton]
    omega

/-! ## `kmp_find` -/

theorem kmpFindLoop_spec (src : List UInt8) (htable : TableUpTo target next target.length) (n : ℕ)
    (hn : i + n ≤ src.length) (hj : j < target.length) (h : Longest target (src.take i) j) :
    ∃ ret, kmpFindLoop src target next n i j = some ret ∧
      (ret = espMdfOk ↔ ∃ k, i ≤ k ∧ k < i + n ∧ target <:+ src.take (k + 1)) := by
  induction n generalizing i j with
  | zero =>
    refine ⟨espMdfFail, rfl, iff_of_false (by decide) ?_⟩
    rintro ⟨k, hik, hki, -⟩
    omega
  | succ n ih =>
    have hlt : i < src.length := by omega
    have hread : src.take (i + 1) = src.take i ++ [src.getD i 0] :=
      take_succ_of_getElem? ((getElem?_eq_iff_getD hlt).mpr rfl)
    obtain ⟨k, hk, hklt, hlongest⟩ := kmpFall_longest (htable.mono hj.le) hj h (src.getD i 0)
    rw [← hread] at hlongest
    rw [kmpFindLoop, hk]
    dsimp only [Option.bind_eq_bind, Option.bind_some]
    -- it is found here, or the rest of the loop decides
    have hrest (j' : ℕ) (hj' : j' < target.length) (h' : Longest target (src.take (i + 1)) j') :
        ∃ ret, kmpFindLoop src target next n (i + 1) j' = some ret ∧
          (ret = espMdfOk ↔ ∃ k, i ≤ k ∧ k < i + (n + 1) ∧ target <:+ src.take (k + 1)) := by
      obtain ⟨ret, hret, hiff⟩ := ih (by omega) hj' h'
      refine ⟨ret, hret, hiff.trans ⟨?_, ?_⟩⟩
      · rintro ⟨k, hik, hki, hfound⟩
        exact ⟨k, by omega, by omega, hfound⟩
      · rintro ⟨k, hik, hki, hfound⟩
        refine ⟨k, Nat.lt_of_le_of_ne hik ?_, by omega, hfound⟩
        rintro rfl
        exact hj'.ne (h'.eq_length_iff.mpr hfound)
    by_cases hc : target.getD k 0 = src.getD i 0
    · rw [if_pos hc] at hlongest
      rw [if_pos hc.symm]
      by_cases hlast : k + 1 = target.length
      · rw [if_pos hlast]
        exact ⟨espMdfOk, rfl, iff_of_true rfl
          ⟨i, le_refl i, by omega, hlongest.eq_length_iff.mp hlast⟩⟩
      · rw [if_neg hlast]
        exact hrest (k + 1) (by omega) hlongest
    · rw [if_neg hc] at hlongest
      rw [if_neg fun h => hc h.symm]
      exact hrest k hklt hlongest

/-- A target ends at a place of the text exactly when it starts its own length before. -/
theorem suffix_take_iff (src : List UInt8) {k : ℕ} (hk : k ≤ src.length) :
    target <:+ src.take k ↔
      ∃ o, o + target.length = k ∧ (src.drop o).take target.length = target := by
  constructor
  · rintro ⟨pre, hpre⟩
    have hlen := congrArg List.length hpre
    rw [List.length_append, List.length_take, Nat.min_eq_left hk] at hlen
    refine ⟨pre.length, hlen, ?_⟩
    have hsrc : src = pre ++ (target ++ src.drop k) := by
      rw [← List.append_assoc, hpre, List.take_append_drop]
    rw [hsrc, List.drop_left, List.take_left]
  · rintro ⟨o, rfl, htarget⟩
    refine ⟨src.take o, ?_⟩
    rw [List.take_add, htarget]

/-- A window is searched for the places where the target starts, up to 31 bytes before the last of
them. -/
theorem kmpFind_spec (src : List UInt8) (htable : TableUpTo target next target.length)
    (hpos : 0 < target.length) (hlen : target.length ≤ src.length) :
    ∃ ret, kmpFind src target next = some ret ∧ (ret = espMdfOk ↔
      ∃ o, o + 2 * target.length ≤ src.length + 1 ∧
        (src.drop o).take target.length = target) := by
  obtain ⟨ret, hret, hiff⟩ := kmpFindLoop_spec (i := 0) src htable (src.length + 1 - target.length)
    (by omega) hpos (longest_nil target)
  refine ⟨ret, hret, hiff.trans ⟨?_, ?_⟩⟩
  · rintro ⟨k, -, hk, hfound⟩
    obtain ⟨o, ho, htarget⟩ := (suffix_take_iff src (by omega)).mp hfound
    exact ⟨o, by omega, htarget⟩
  · rintro ⟨o, ho, htarget⟩
    refine ⟨o + target.length - 1, Nat.zero_le _, by omega, ?_⟩
    rw [show o + target.length - 1 + 1 = o + target.length by omega]
    exact (suffix_take_iff src (by omega)).mpr ⟨o, rfl, htarget⟩

end Search

/-! ## The windows -/

section Windows
variable (firmwareFlag : Bytes 32) (e : CheckEnv) (p : EspPartition)

/-- The identifier lies in the partition, `o` bytes from its start. -/
def FlagAt (o : ℕ) : Prop :=
  o + 32 ≤ p.size.toNat ∧
    (Mem.mk e.flash []).loadBytes (p.address.toNat + o) 32 = firmwareFlag

/-- A place where an identifier is found: not among the last of its window, and the window lies
in the partition with a byte to spare. -/
def Searched (o : ℕ) : Prop := o % 992 ≤ 961 ∧ 992 * (o / 992) + 1024 < p.size.toNat

/-- A partition of one window contains the identifier. In a larger one it is at a place that is
searched, if it is there at all. -/
def FlagCovered : Prop :=
  (p.size.toNat ≤ 1024 → ∃ o, FlagAt firmwareFlag e p o) ∧
    (1024 < p.size.toNat → (∃ o, FlagAt firmwareFlag e p o) →
      ∃ o, Searched p o ∧ FlagAt firmwareFlag e p o)

variable {firmwareFlag e p} {next : Mem}

/-- The places of the `k`-th window. -/
theorem window_found_iff {k : ℕ} (hk : 992 * k + 1024 < p.size.toNat) (o : ℕ) (ho : o ≤ 961) :
    (((Mem.mk e.flash []).load (p.address.toNat + 992 * k) 1024).drop o).take 32 =
      firmwareFlag.val ↔ Searched p (992 * k + o) ∧ FlagAt firmwareFlag e p (992 * k + o) := by
  have hdiv : (992 * k + o) / 992 = k := by omega
  have hmod : (992 * k + o) % 992 = o := by omega
  rw [Mem.load_drop _ _ _ _ (by omega), Mem.load_take _ _ _ _ (by omega), Searched, FlagAt, hdiv,
    hmod, ← Nat.add_assoc]
  constructor
  · exact fun h => ⟨⟨ho, hk⟩, by omega, Subtype.ext h⟩
  · exact fun h => congrArg Subtype.val h.2.2

theorem windowAddr_lt {addr : UInt32} {k : ℕ} (haddr : addr.toNat = p.address.toNat + 992 * k)
    (hk : k = 0 ∨ 992 * k + 32 < p.size.toNat) :
    addr + 1024 < p.address + p.size ↔ 992 * k + 1024 < p.size.toNat := by
  have hfits := p.fits
  rw [UInt32.lt_iff_toNat_lt, UInt32.toNat_add, UInt32.toNat_add, haddr,
    show (1024 : UInt32).toNat = 1024 from rfl]
  omega

theorem windowAddr_next {addr : UInt32} {k : ℕ} (haddr : addr.toNat = p.address.toNat + 992 * k)
    (hk : 992 * k + 1024 < p.size.toNat) :
    (addr + 1024 - 32).toNat = p.address.toNat + 992 * (k + 1) := by
  have hfits := p.fits
  have hadd : (addr + 1024).toNat = p.address.toNat + 992 * k + 1024 := by
    rw [UInt32.toNat_add, haddr, show (1024 : UInt32).toNat = 1024 from rfl]
    omega
  rw [UInt32.toNat_sub_of_le _ _ (by rw [UInt32.le_iff_toNat_le, hadd,
    show (32 : UInt32).toNat = 32 from rfl]; omega), hadd, show (32 : UInt32).toNat = 32 from rfl]
  omega

/-- One window is searched. -/
theorem window_spec (htable : TableUpTo firmwareFlag.val next 32) {addr : UInt32} {k : ℕ}
    (haddr : addr.toNat = p.address.toNat + 992 * k) (hk : 992 * k + 1024 < p.size.toNat) :
    ∃ ret, kmpFind ((Mem.mk e.flash []).load addr.toNat 1024) firmwareFlag.val next = some ret ∧
      (ret = espMdfOk ↔ ∃ o, o / 992 = k ∧ Searched p o ∧ FlagAt firmwareFlag e p o) := by
  obtain ⟨ret, hret, hiff⟩ := kmpFind_spec ((Mem.mk e.flash []).load addr.toNat 1024)
    (by rwa [firmwareFlag.2]) (by rw [firmwareFlag.2]; decide)
    (by rw [firmwareFlag.2, Mem.load_length]; decide)
  rw [firmwareFlag.2, Mem.load_length, haddr] at hiff
  refine ⟨ret, hret, hiff.trans ⟨?_, ?_⟩⟩
  · rintro ⟨o, ho, hfound⟩
    exact ⟨992 * k + o, by omega, (window_found_iff hk o (by omega)).mp hfound⟩
  · rintro ⟨o, hok, hsearched, hflag⟩
    have ho : o = 992 * k + o % 992 := by omega
    have hmod := hsearched.1
    refine ⟨o % 992, by omega, (window_found_iff hk _ hmod).mpr ?_⟩
    rw [← ho]
    exact ⟨hsearched, hflag⟩

/-- The windows from the `k`-th on. The bound on the turns is never reached. -/
theorem firmwareLoop_spec (p : EspPartition) (hread : ∀ addr, e.spiFlashRead addr = espMdfOk)
    (htable : TableUpTo firmwareFlag.val next 32) (fuel k : ℕ) (addr : UInt32) (ret : ℤ)
    (haddr : addr.toNat = p.address.toNat + 992 * k) (hfuel : p.size.toNat < fuel + 992 * k)
    (hk : k = 0 ∨ 992 * k + 32 < p.size.toNat) :
    ∃ r, firmwareLoop firmwareFlag e p next fuel addr ret = some r ∧ (r = espMdfOk ↔
      (p.size.toNat ≤ 992 * k + 1024 ∧ ret = espMdfOk) ∨
        ∃ o, k ≤ o / 992 ∧ Searched p o ∧ FlagAt firmwareFlag e p o) := by
  induction fuel generalizing k addr ret with
  | zero => omega
  | succ fuel ih =>
    rw [firmwareLoop]
    by_cases hwindow : 992 * k + 1024 < p.size.toNat
    · obtain ⟨found, hfound, hiff⟩ := window_spec (e := e) htable haddr hwindow
      rw [if_pos ((windowAddr_lt haddr hk).mpr hwindow), hread]
      dsimp only
      rw [if_neg (not_not.mpr rfl), hfound, Option.bind_eq_bind, Option.bind_some]
      by_cases hok : found = espMdfOk
      · rw [if_pos hok]
        obtain ⟨o, hok', ho⟩ := hiff.mp hok
        exact ⟨found, rfl, iff_of_true hok (.inr ⟨o, hok'.ge, ho⟩)⟩
      · rw [if_neg hok]
        obtain ⟨r, hr, hrest⟩ := ih (k + 1) (addr + 1024 - 32) found
          (windowAddr_next haddr hwindow) (by omega) (.inr (by omega))
        refine ⟨r, hr, hrest.trans ⟨?_, ?_⟩⟩
        · rintro (⟨-, hret⟩ | ⟨o, hko, ho⟩)
          · exact absurd hret hok
          · exact .inr ⟨o, by omega, ho⟩
        · rintro (⟨hlast, -⟩ | ⟨o, hko, ho⟩)
          · omega
          · -- not in this window, where it would have been found
            have hne : o / 992 ≠ k := fun heq => hok (hiff.mpr ⟨o, heq, ho⟩)
            exact .inr ⟨o, by omega, ho⟩
    · rw [if_neg (mt (windowAddr_lt haddr hk).mp hwindow)]
      refine ⟨ret, rfl, ?_⟩
      constructor
      · exact fun h => .inl ⟨by omega, h⟩
      · rintro (⟨-, hret⟩ | ⟨o, hko, ⟨-, ho⟩, -⟩)
        · exact hret
        · omega

/-- The check returns, and what it says. -/
theorem mupgradeFirmwareCheck_spec (firmwareFlag : Bytes 32) (p : EspPartition)
    (hread : ∀ addr, e.spiFlashRead addr = espMdfOk) :
    ∃ result, mupgradeFirmwareCheck firmwareFlag e (some p) = some result ∧ (result = .mdfOk ↔
      p.size.toNat ≤ 1024 ∨ ∃ o, Searched p o ∧ FlagAt firmwareFlag e p o) := by
  obtain ⟨next, hnext, htable, -⟩ := kmpNext_spec firmwareFlag.val
    (by rw [firmwareFlag.2]; decide) (by rw [firmwareFlag.2]; decide) (fun _ => 0)
  rw [firmwareFlag.2] at htable
  obtain ⟨ret, hret, hiff⟩ := firmwareLoop_spec p hread htable
    (p.size.toNat + 1) 0 p.address espMdfOk rfl (by omega) (.inl rfl)
  rw [mupgradeFirmwareCheck, hnext, Option.bind_eq_bind, Option.bind_some, hret,
    Option.bind_eq_bind, Option.bind_some]
  refine ⟨_, rfl, ?_⟩
  have hok : ret = espMdfOk ↔
      p.size.toNat ≤ 1024 ∨ ∃ o, Searched p o ∧ FlagAt firmwareFlag e p o := by
    rw [hiff]
    simp
  rw [← hok]
  by_cases h : ret = espMdfOk
  · simp [h]
  · simp [h]

end Windows

/-- **The check finds the identifier wherever it is**, exactly when it is covered. -/
theorem mupgradeFirmwareCheck_finds_iff (firmwareFlag : Bytes 32) (e : CheckEnv) (p : EspPartition)
    (hread : ∀ addr, e.spiFlashRead addr = espMdfOk) :
    (mupgradeFirmwareCheck firmwareFlag e (some p) = some .mdfOk ↔
      ∃ o, FlagAt firmwareFlag e p o) ↔ FlagCovered firmwareFlag e p := by
  obtain ⟨result, hresult, hiff⟩ := mupgradeFirmwareCheck_spec firmwareFlag p hread
  rw [hresult, Option.some.injEq, hiff, FlagCovered]
  rcases Nat.lt_or_ge 1024 p.size.toNat with hmore | hone
  · constructor
    · exact fun h => ⟨fun hone => absurd hmore hone.not_gt, fun _ hflag =>
        (h.mpr hflag).resolve_left hmore.not_ge⟩
    · intro h
      constructor
      · rintro (hone | ⟨o, -, hflag⟩)
        · exact absurd hmore hone.not_gt
        · exact ⟨o, hflag⟩
      · exact fun hflag => .inr (h.2 hmore hflag)
  · constructor
    · exact fun h => ⟨fun _ => h.mp (.inl hone), fun hmore => absurd hmore hone.not_gt⟩
    · exact fun h => iff_of_true (.inl hone) (h.1 hone)

/-! ## Two partitions of 4096 bytes -/

/-- Nothing but the identifier, `o` bytes behind the address 10000 (hexadecimal). -/
def flashWithFlag (o : ℕ) : CheckEnv where
  flash := fun a => if 65536 + o ≤ a then mupgradeFirmwareFlag.val.getD (a - (65536 + o)) 0 else 0
  spiFlashRead := fun _ => espMdfOk

def partition4096 : EspPartition := ⟨65536, 4096, by decide⟩

theorem flashWithFlag_at (o : ℕ) (ho : o + 32 ≤ 4096) :
    FlagAt mupgradeFirmwareFlag (flashWithFlag o) partition4096 o := by
  refine ⟨ho, Subtype.ext ?_⟩
  refine (Mem.load_eq_list _ _ mupgradeFirmwareFlag.val).mpr fun i _ => ?_
  have haddr : partition4096.address.toNat = 65536 := rfl
  simp only [flashWithFlag, haddr]
  rw [if_pos (Nat.le_add_right _ i), Nat.add_sub_cancel_left]

/-- Its first asterisk and its last lie where they were put. -/
theorem flashWithFlag_only {start o : ℕ}
    (h : FlagAt mupgradeFirmwareFlag (flashWithFlag start) partition4096 o) : o = start := by
  have hbyte (i : ℕ) (hi : i < 32) : (flashWithFlag start).flash (65536 + o + i) =
      mupgradeFirmwareFlag.val.getD i 0 := by
    have hload := congrArg Subtype.val h.2
    have hread := Mem.load_getD (Mem.mk (flashWithFlag start).flash []) (65536 + o) 32 i hi
    exact hread.symm.trans (congrArg (fun bs => List.getD bs i 0) hload)
  have hfirst := hbyte 0 (by decide)
  have hlast := hbyte 27 (by decide)
  have hnul (j : ℕ) (hj : 28 ≤ j) : mupgradeFirmwareFlag.val.getD j 0 = 0 := by
    rcases Nat.lt_or_ge j 32 with hlt | hge
    · interval_cases j <;> rfl
    · exact List.getD_eq_default _ _ hge
  simp only [flashWithFlag] at hfirst hlast
  have hge : start ≤ o := by
    by_contra hlt
    rw [if_neg (by omega)] at hfirst
    exact absurd hfirst (by decide)
  have hle : o ≤ start := by
    by_contra hgt
    rw [if_pos (by omega), hnul _ (by omega)] at hlast
    exact absurd hlast (by decide)
  exact Nat.le_antisymm hle hge

theorem flag_at_start_found :
    mupgradeFirmwareCheck mupgradeFirmwareFlag (flashWithFlag 0) (some partition4096) =
      some .mdfOk ↔ ∃ o, FlagAt mupgradeFirmwareFlag (flashWithFlag 0) partition4096 o := by
  have hflag := flashWithFlag_at 0 (by decide)
  have hsearched : Searched partition4096 0 := ⟨by decide, by decide⟩
  exact (mupgradeFirmwareCheck_finds_iff mupgradeFirmwareFlag (flashWithFlag 0) partition4096
    fun _ => rfl).mpr ⟨fun h => absurd h (by decide), fun _ _ => ⟨0, hsearched, hflag⟩⟩

/-- Where two windows meet it is not found. -/
theorem flag_between_windows_missed :
    ¬ (mupgradeFirmwareCheck mupgradeFirmwareFlag (flashWithFlag 962) (some partition4096) =
      some .mdfOk ↔ ∃ o, FlagAt mupgradeFirmwareFlag (flashWithFlag 962) partition4096 o) := by
  intro hclaim
  have hok := hclaim.mpr ⟨962, flashWithFlag_at 962 (by decide)⟩
  obtain ⟨result, hresult, hiff⟩ := mupgradeFirmwareCheck_spec mupgradeFirmwareFlag partition4096
    (e := flashWithFlag 962) fun _ => rfl
  rw [hresult, Option.some.injEq] at hok
  rcases hiff.mp hok with hone | ⟨o, hsearched, hflag⟩
  · exact absurd hone (by decide)
  · rw [flashWithFlag_only hflag] at hsearched
    exact absurd hsearched.1 (by decide)

end EspMesh
