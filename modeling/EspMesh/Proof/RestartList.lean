import EspMesh.Model.MupgradeRoot
import EspMesh.Proof.RootStep

/-! # Which devices are restarted

The list of failed addresses is written one byte behind the list of addresses it is read from: as
long as every write fails, the last byte of one address becomes the first byte of the next.
-/

namespace EspMesh
set_option autoImplicit false
set_option maxRecDepth 20000
open ByteMem

/-! ## The list as it is read -/

def firstByte (a : Mac) : UInt8 := a.val.getD 0 0

def lastByte (a : Mac) : UInt8 := a.val.getD 5 0

def withFirst (b : UInt8) (a : Mac) : Mac := ⟨b :: a.val.tail, by simp [a.2]⟩

/-- The addresses that are read where `addrs` stand, the first of them with the byte `carry`
instead of its own. -/
def readAddrs (self : Mac) (ok : ℕ → Bool) : Option UInt8 → ℕ → List Mac → List Mac
  | _, _, [] => []
  | carry, i, a :: addrs =>
    let read := carry.elim a fun b => withFirst b a
    read :: if read = self ∨ ok i then addrs
      else readAddrs self ok (some (lastByte read)) (i + 1) addrs

def otherAddrs (self : Mac) (addrs : List Mac) : List Mac := addrs.filter (· ≠ self)

/-- The addresses other than the root's whose write fails, turn `i` being that of the first. -/
def failedAddrs (self : Mac) (ok : ℕ → Bool) : ℕ → List Mac → List Mac
  | _, [] => []
  | i, a :: addrs =>
    if a = self ∨ ok i then failedAddrs self ok (i + 1) addrs
    else a :: failedAddrs self ok (i + 1) addrs

/-- The root's address, read with the byte `b` in front, is sent to instead of the address behind
it, which is read as the root's. -/
def Swapped (self : Mac) (ok : ℕ → Bool) (answered : Bool) (b : UInt8) (i : ℕ) (a : Mac)
    (addrs : List Mac) : Prop :=
  b ≠ firstByte self ∧ a = self ∧ lastByte self = firstByte self ∧
    addrs.head? = some (withFirst b self) ∧ ok i = false ∧ (answered = true → ok (i + 1) = false)

/-- Up to the first address that is the root's or is written to without failure, each address
begins with the last byte of the one in front, or is swapped with the next. -/
def KeepsAddrs (self : Mac) (ok : ℕ → Bool) (answered : Bool) :
    Option UInt8 → ℕ → List Mac → Prop
  | _, _, [] => True
  | carry, i, a :: addrs =>
    (∀ b ∈ carry, b = firstByte a) ∧
      (a = self ∨ ok i = true ∨ KeepsAddrs self ok answered (some (lastByte a)) (i + 1) addrs) ∨
    ∃ b ∈ carry, Swapped self ok answered b i a addrs

/-! ## Addresses and their first bytes -/

theorem withFirst_eq_iff (b : UInt8) (a : Mac) : withFirst b a = a ↔ b = firstByte a := by
  obtain ⟨bytes, hlen⟩ := a
  match bytes, hlen with
  | [b0, b1, b2, b3, b4, b5], _ => simp [withFirst, firstByte]

@[simp] theorem lastByte_withFirst (b : UInt8) (a : Mac) :
    lastByte (withFirst b a) = lastByte a := by
  obtain ⟨bytes, hlen⟩ := a
  match bytes, hlen with
  | [b0, b1, b2, b3, b4, b5], _ => rfl

/-! ## Where a wrong byte shows -/

section Lists
variable {self : Mac} {ok : ℕ → Bool} {carry : Option UInt8} {i : ℕ}

@[simp] theorem otherAddrs_self (self : Mac) (addrs : List Mac) :
    otherAddrs self (self :: addrs) = otherAddrs self addrs :=
  List.filter_cons_of_neg (by simp)

theorem otherAddrs_cons {a : Mac} (h : a ≠ self) (addrs : List Mac) :
    otherAddrs self (a :: addrs) = a :: otherAddrs self addrs :=
  List.filter_cons_of_pos (by simpa using h)

theorem otherAddrs_length_cons (self a : Mac) (addrs : List Mac) :
    (otherAddrs self (a :: addrs)).length ≤ (otherAddrs self addrs).length + 1 := by
  by_cases h : a = self
  · rw [h, otherAddrs_self]
    omega
  · rw [otherAddrs_cons h, List.length_cons]

theorem readAddrs_none (a : Mac) (addrs : List Mac) :
    readAddrs self ok none i (a :: addrs) = a :: if a = self ∨ ok i then addrs
      else readAddrs self ok (some (lastByte a)) (i + 1) addrs := rfl

theorem readAddrs_some (b : UInt8) (a : Mac) (addrs : List Mac) :
    readAddrs self ok (some b) i (a :: addrs) =
      withFirst b a :: if withFirst b a = self ∨ ok i then addrs
        else readAddrs self ok (some (lastByte a)) (i + 1) addrs := by
  rw [← lastByte_withFirst b a]
  rfl

/-- At most one address is lost, since a wrong byte ends with an address taken for the root's. -/
theorem readAddrs_count (self : Mac) (ok : ℕ → Bool) (carry : Option UInt8) (i : ℕ)
    (addrs : List Mac) : (otherAddrs self addrs).length ≤
      (otherAddrs self (readAddrs self ok carry i addrs)).length + 1 := by
  induction addrs generalizing carry i with
  | nil => simp [otherAddrs]
  | cons a addrs ih =>
    have hfirst := otherAddrs_length_cons self a addrs
    rw [readAddrs]
    generalize (carry.elim a fun b => withFirst b a) = read
    by_cases hself : read = self
    · rw [if_pos (.inl hself), hself, otherAddrs_self]
      exact hfirst
    · rw [otherAddrs_cons hself, List.length_cons]
      split
      · omega
      · have hrest := ih (some (lastByte read)) (i + 1)
        omega

/-- An address that takes the place of the root's in front of the others: the others begin with
it, and are read as if the root's address were there. -/
theorem read_instead {d : Mac} {addrs : List Mac} (hd : d ≠ self)
    (htail : withFirst (firstByte self) d = self)
    (h : otherAddrs self addrs =
      d :: otherAddrs self (readAddrs self ok (some (lastByte self)) i addrs)) :
    lastByte self = firstByte self ∧ addrs.head? = some d := by
  induction addrs generalizing d i with
  | nil => cases h
  | cons a addrs ih =>
    have hcount := readAddrs_count self ok (some (lastByte self)) (i + 1) addrs
    rw [readAddrs_some] at h
    by_cases ha : a = self
    · -- One address more than there are.
      subst ha
      have hlen := congrArg List.length h
      rw [otherAddrs_self, List.length_cons] at hlen
      by_cases hread : withFirst (lastByte a) a = a
      · rw [if_pos (.inl hread), hread, otherAddrs_self] at hlen
        omega
      · rw [otherAddrs_cons hread, List.length_cons] at hlen
        split at hlen <;> omega
    · rw [otherAddrs_cons ha] at h
      obtain ⟨rfl, hrest⟩ := List.cons.inj h
      refine ⟨?_, rfl⟩
      by_cases hread : withFirst (lastByte self) a = self
      · exact congrArg firstByte hread
      · have hlast : lastByte a = lastByte self := by rw [← htail, lastByte_withFirst]
        rw [otherAddrs_cons hread, hlast] at hrest
        split at hrest
        · have hlen := congrArg List.length hrest
          rw [List.length_cons] at hlen
          omega
        · exact (ih hread htail hrest).1

/-- What is sent, reported and restarted is the same for the addresses read and those listed. -/
structure SameRestarts (gSelfMac : Mac) (ok : ℕ → Bool) (answered : Bool) (i : ℕ)
    (read addrs : List Mac) : Prop where
  sent : otherAddrs gSelfMac read = otherAddrs gSelfMac addrs
  failed : answered = true → failedAddrs gSelfMac ok i read = failedAddrs gSelfMac ok i addrs
  restarts : gSelfMac ∈ read ↔ gSelfMac ∈ addrs

theorem SameRestarts.refl (self : Mac) (ok : ℕ → Bool) (answered : Bool) (i : ℕ)
    (addrs : List Mac) : SameRestarts self ok answered i addrs addrs :=
  ⟨rfl, fun _ => rfl, Iff.rfl⟩

section Step
variable {answered : Bool} {a : Mac} {addrs read : List Mac} {b : UInt8}

theorem failedAddrs_fail (ha : a ≠ self) (hok : ok i = false) (addrs : List Mac) :
    failedAddrs self ok i (a :: addrs) = a :: failedAddrs self ok (i + 1) addrs := by
  rw [failedAddrs, if_neg (by simp [ha, hok])]

theorem failedAddrs_skip (h : a = self ∨ ok i = true) (addrs : List Mac) :
    failedAddrs self ok i (a :: addrs) = failedAddrs self ok (i + 1) addrs := by
  rw [failedAddrs, if_pos h]

theorem sameRestarts_cons (ha : a ≠ self) (hok : ok i = false) :
    SameRestarts self ok answered i (a :: read) (a :: addrs) ↔
      SameRestarts self ok answered (i + 1) read addrs := by
  have hne : self ≠ a := Ne.symm ha
  constructor
  · rintro ⟨hsent, hfailed, hrestarts⟩
    rw [otherAddrs_cons ha, otherAddrs_cons ha] at hsent
    rw [failedAddrs_fail ha hok, failedAddrs_fail ha hok] at hfailed
    rw [List.mem_cons, List.mem_cons, or_iff_right hne, or_iff_right hne] at hrestarts
    exact ⟨(List.cons.inj hsent).2, fun h => (List.cons.inj (hfailed h)).2, hrestarts⟩
  · rintro ⟨hsent, hfailed, hrestarts⟩
    refine ⟨?_, fun h => ?_, ?_⟩
    · rw [otherAddrs_cons ha, otherAddrs_cons ha, hsent]
    · rw [failedAddrs_fail ha hok, failedAddrs_fail ha hok, hfailed h]
    · rw [List.mem_cons, List.mem_cons, hrestarts]

/-- An address that is read as it stands. -/
theorem sameRestarts_kept :
    SameRestarts self ok answered i (a :: if a = self ∨ ok i then addrs
      else readAddrs self ok (some (lastByte a)) (i + 1) addrs) (a :: addrs) ↔
    a = self ∨ ok i = true ∨
      SameRestarts self ok answered (i + 1)
        (readAddrs self ok (some (lastByte a)) (i + 1) addrs) addrs := by
  by_cases h : a = self ∨ ok i = true
  · rw [if_pos h]
    exact iff_of_true (.refl ..) (h.imp_right .inl)
  · rw [if_neg h]
    obtain ⟨ha, hok⟩ := not_or.mp h
    rw [sameRestarts_cons ha (by simpa using hok), or_iff_right ha, or_iff_right hok]

theorem readAddrs_swapped (h : lastByte a = firstByte a) :
    readAddrs a ok (some (lastByte a)) i (withFirst b a :: addrs) = a :: addrs := by
  have hread : withFirst (lastByte a) (withFirst b a) = a := (withFirst_eq_iff _ a).mpr h
  rw [readAddrs_some, if_pos (.inl hread), hread]

theorem failedAddrs_swapped (ha : a ≠ self) (hok : ok i = false) (addrs : List Mac) :
    failedAddrs self ok i (a :: self :: addrs) = a :: failedAddrs self ok (i + 1 + 1) addrs := by
  rw [failedAddrs_fail ha hok, failedAddrs_skip (.inl rfl)]

/-- An address that is read with a wrong byte shows unless it is the root's and swapped. -/
theorem swapped_of_same (hb : b ≠ firstByte a)
    (h : SameRestarts self ok answered i (readAddrs self ok (some b) i (a :: addrs)) (a :: addrs)) :
    Swapped self ok answered b i a addrs := by
  have hread : withFirst b a ≠ a := fun heq => hb ((withFirst_eq_iff b a).mp heq)
  obtain ⟨hsent, hfailed, -⟩ := h
  rw [readAddrs_some] at hsent hfailed
  by_cases hself : withFirst b a = self
  · -- The root's address is read instead of another.
    have ha : a ≠ self := fun heq => hread (hself.trans heq.symm)
    rw [if_pos (.inl hself), hself, otherAddrs_self, otherAddrs_cons ha] at hsent
    exact absurd (congrArg List.length hsent) (by simp)
  · rw [otherAddrs_cons hself] at hsent
    by_cases ha : a = self
    · subst ha
      rw [otherAddrs_self] at hsent
      by_cases hok : ok i = true
      · rw [if_pos (.inr hok)] at hsent
        exact absurd (congrArg List.length hsent) (by simp)
      · have hstop : ¬ (withFirst b a = a ∨ ok i = true) := not_or.mpr ⟨hread, hok⟩
        rw [if_neg hstop] at hsent hfailed
        have htail : withFirst (firstByte a) (withFirst b a) = a :=
          (withFirst_eq_iff _ _).mpr rfl
        obtain ⟨hlast, hhead⟩ := read_instead hread htail hsent.symm
        refine ⟨hb, rfl, hlast, hhead, by simpa using hok, fun hanswered => ?_⟩
        obtain ⟨addrs, rfl⟩ := List.head?_eq_some_iff.mp hhead
        have hrest := hfailed hanswered
        rw [readAddrs_swapped hlast, failedAddrs_swapped hread (by simpa using hok),
          failedAddrs_skip (.inl rfl)] at hrest
        by_contra hnext
        rw [failedAddrs_skip (.inr (by simpa using hnext))] at hrest
        exact absurd (congrArg List.length hrest) (by simp)
    · rw [otherAddrs_cons ha] at hsent
      exact absurd (List.cons.inj hsent).1 hread

theorem same_of_swapped (h : Swapped self ok answered b i a addrs) :
    SameRestarts self ok answered i (readAddrs self ok (some b) i (a :: addrs)) (a :: addrs) := by
  obtain ⟨hb, rfl, hlast, hhead, hok, hfails⟩ := h
  have hread : withFirst b a ≠ a := fun heq => hb ((withFirst_eq_iff b a).mp heq)
  obtain ⟨addrs, rfl⟩ := List.head?_eq_some_iff.mp hhead
  have hstop : ¬ (withFirst b a = a ∨ ok i = true) := not_or.mpr ⟨hread, by simp [hok]⟩
  rw [readAddrs_some, if_neg hstop, readAddrs_swapped hlast]
  refine ⟨?_, fun hanswered => ?_, by simp⟩
  · rw [otherAddrs_cons hread, otherAddrs_self, otherAddrs_self, otherAddrs_cons hread]
  · rw [failedAddrs_swapped hread hok, failedAddrs_skip (.inl rfl),
      failedAddrs_fail hread (hfails hanswered)]

end Step

theorem sameRestarts_iff (answered : Bool) (addrs : List Mac) :
    SameRestarts self ok answered i (readAddrs self ok carry i addrs) addrs ↔
      KeepsAddrs self ok answered carry i addrs := by
  induction addrs generalizing carry i with
  | nil => exact iff_of_true (.refl ..) trivial
  | cons a addrs ih =>
    rw [KeepsAddrs]
    cases carry with
    | none =>
      rw [readAddrs_none, sameRestarts_kept, ih]
      simp
    | some b =>
      simp only [Option.mem_def, Option.some.injEq, forall_eq', exists_eq_left']
      by_cases hb : b = firstByte a
      · have hread := (withFirst_eq_iff b a).mpr hb
        have hnot : ¬ Swapped self ok answered b i a addrs := fun h => h.1 (h.2.1 ▸ hb)
        rw [readAddrs_some, hread, sameRestarts_kept, ih, or_iff_left hnot, and_iff_right hb]
      · rw [or_iff_right fun h => hb h.1]
        exact ⟨swapped_of_same hb, same_of_swapped⟩

end Lists

/-! ## The loop on the buffer -/

/-- `mwifi_write` of a restart request. -/
def IsRestartTo (a : Mac) (event : Event) : Prop :=
  ∃ packet, event = .mwifiWrite (some a) .zero packet ∧
    packet.take body = mwifiAddrBroadcast.val ++ [BusType.request.byte, BusCmd.restart.byte]

/-- Where address `i` of the command stands, and where failed address `i` is put. -/
def listedAt (p i : ℕ) : ℕ := p + tNode + body + tDevAddr + mwifiAddrLen * i

def failedAt (p i : ℕ) : ℕ := p + tNode + body + u8DevAddr + mwifiAddrLen * i

section Loop
variable {self : Mac} {p : ℕ} {ok : ℕ → Bool}

/-- A failed address leaves the addresses behind the next one. -/
theorem addrsAt_failed_before {m : Mem} (a : Mac) {i errs : ℕ} (h : errs + 1 < i) (n : ℕ) :
    addrsAt (m.store (failedAt p errs) a.val) (listedAt p i) n = addrsAt m (listedAt p i) n := by
  refine addrsAt_congr fun k _ => Mem.store_byte_off _ _ _ _ (.inr ?_)
  simp only [failedAt, listedAt, u8DevAddr, tDevAddr, mwifiAddrLen, a.2]
  omega

theorem listedAt_next (p i : ℕ) : listedAt p i + mwifiAddrLen = listedAt p (i + 1) := by
  simp only [listedAt, mwifiAddrLen]
  omega

/-- Its last byte is the first one of the next address. -/
theorem loadBytes_failed (m : Mem) (a : Mac) (i : ℕ) :
    (m.store (failedAt p i) a.val).loadBytes (listedAt p (i + 1)) 6 =
      withFirst (lastByte a) (m.loadBytes (listedAt p (i + 1)) 6) := by
  have hplace : listedAt p (i + 1) = failedAt p i + 5 := by
    simp only [listedAt, failedAt, tDevAddr, u8DevAddr, mwifiAddrLen]
    omega
  have hbyte := Mem.store_byte_at m (failedAt p i) 5 a.val (by rw [a.2]; decide)
  have htail : (m.load (failedAt p i + 5) 6).tail = m.load (failedAt p i + 5 + 1) 5 := by
    rw [← List.drop_one, Mem.load_drop _ _ _ _ (by decide)]
  have hrest := Mem.load_store_off m (failedAt p i) (failedAt p i + 5 + 1) 5 a.val
    (.inr (by rw [a.2]))
  rw [hplace]
  refine Subtype.ext ?_
  have hsplit := Mem.load_append (m.store (failedAt p i) a.val) (failedAt p i + 5) 1 5
  rw [hrest, ← htail] at hsplit
  refine hsplit.trans ?_
  rw [Mem.load_eq_map]
  exact congrArg (· :: _) hbyte

theorem readAddrs_failed (m : Mem) (a : Mac) (i n : ℕ) :
    readAddrs self ok none (i + 1)
        (addrsAt (m.store (failedAt p i) a.val) (listedAt p (i + 1)) n) =
      readAddrs self ok (some (lastByte a)) (i + 1) (addrsAt m (listedAt p (i + 1)) n) := by
  cases n with
  | zero => rfl
  | succ n =>
    rw [addrsAt_succ, addrsAt_succ, listedAt_next, addrsAt_failed_before a (by omega),
      loadBytes_failed, readAddrs_none, readAddrs_some, lastByte_withFirst]

/-- What the loop does from turn `i` on, when it reads `read`. -/
structure RestartsRead (gSelfMac : Mac) (p : ℕ) (ok : ℕ → Bool) (i errs : ℕ) (found : Bool)
    (read : List Mac) (io : Io) (r : Io × ℕ × Bool) : Prop where
  sent : ∃ sent, r.1.trace = sent.reverse ++ io.trace ∧
    List.Forall₂ IsRestartTo (otherAddrs gSelfMac read) sent
  count : r.2.1 = errs + (failedAddrs gSelfMac ok i read).length
  restarts : r.2.2 = true ↔ found = true ∨ gSelfMac ∈ read
  head : r.1.mem.load (p + tNode) body = io.mem.load (p + tNode) body
  list : r.1.mem.load (failedAt p 0) (mwifiAddrLen * r.2.1) =
    io.mem.load (failedAt p 0) (mwifiAddrLen * errs) ++
      (failedAddrs gSelfMac ok i read).flatMap (·.val)

variable {i errs : ℕ} {found : Bool} {a : Mac} {read : List Mac} {io : Io} {r : Io × ℕ × Bool}

theorem RestartsRead.nil : RestartsRead self p ok i errs found [] io (io, errs, found) :=
  ⟨⟨[], rfl, .nil⟩, rfl, by simp, rfl, by simp [failedAddrs]⟩

/-- The root's own address. -/
theorem RestartsRead.cons_self (h : RestartsRead self p ok (i + 1) errs true read io r) :
    RestartsRead self p ok i errs found (self :: read) io r := by
  have hskip : failedAddrs self ok i (self :: read) = failedAddrs self ok (i + 1) read :=
    failedAddrs_skip (.inl rfl) read
  exact ⟨otherAddrs_self self read ▸ h.sent, hskip ▸ h.count, by simp [h.restarts], h.head,
    hskip ▸ h.list⟩

/-- The request to another address goes out. -/
theorem sent_cons (ha : a ≠ self) {event : Event} (hevent : IsRestartTo a event)
    (h : ∃ sent, r.1.trace = sent.reverse ++ event :: io.trace ∧
      List.Forall₂ IsRestartTo (otherAddrs self read) sent) :
    ∃ sent, r.1.trace = sent.reverse ++ io.trace ∧
      List.Forall₂ IsRestartTo (otherAddrs self (a :: read)) sent := by
  obtain ⟨sent, htrace, hsent⟩ := h
  refine ⟨event :: sent, by simp [htrace], ?_⟩
  rw [otherAddrs_cons ha]
  exact .cons hevent hsent

theorem RestartsRead.cons_ok (ha : a ≠ self) (hok : ok i = true) {event : Event}
    (hevent : IsRestartTo a event)
    (h : RestartsRead self p ok (i + 1) errs found read (io.emit event) r) :
    RestartsRead self p ok i errs found (a :: read) io r := by
  have hskip : failedAddrs self ok i (a :: read) = failedAddrs self ok (i + 1) read :=
    failedAddrs_skip (.inr hok) read
  exact ⟨sent_cons ha hevent h.sent, hskip ▸ h.count, by simp [h.restarts, Ne.symm ha], h.head,
    hskip ▸ h.list⟩

theorem RestartsRead.cons_fail (ha : a ≠ self) (hok : ok i = false) {event : Event}
    (hevent : IsRestartTo a event)
    (h : RestartsRead self p ok (i + 1) (errs + 1) found read
      ((io.emit event).modify fun m => m.store (failedAt p errs) a.val) r) :
    RestartsRead self p ok i errs found (a :: read) io r := by
  have hfail := failedAddrs_fail ha hok read
  refine ⟨sent_cons ha hevent h.sent, ?_, by simp [h.restarts, Ne.symm ha], ?_, ?_⟩
  · rw [h.count, hfail, List.length_cons]
    omega
  · refine h.head.trans (Mem.load_store_off _ _ _ _ _ (.inl ?_))
    simp only [failedAt]
    omega
  · have hplace : failedAt p errs = failedAt p 0 + mwifiAddrLen * errs := by
      simp only [failedAt]
      omega
    have hput : (io.mem.store (failedAt p errs) a.val).load (failedAt p 0)
        (mwifiAddrLen * (errs + 1)) =
        io.mem.load (failedAt p 0) (mwifiAddrLen * errs) ++ a.val := by
      rw [Nat.mul_add, Mem.load_append, ← hplace,
        Mem.load_store_off _ _ _ _ _ (.inl (by rw [hplace]))]
      have hself := Mem.load_store_self io.mem (failedAt p errs) a.val
      rw [a.2] at hself
      exact congrArg _ hself
    rw [h.list, hfail, List.flatMap_cons, ← List.append_assoc]
    exact congrArg (· ++ _) hput

theorem restartLoop_succ (n : ℕ) : restartLoop self p ok (n + 1) i errs found io =
    let a := io.mem.loadBytes (listedAt p i) 6
    if self = a then restartLoop self p ok n (i + 1) errs true io
    else
      let io := io.emit (.mwifiWrite (some a) MwifiDataType.zero
        (io.mem.load (p + tNode) childPacketLen))
      if ok i then restartLoop self p ok n (i + 1) errs found io
      else restartLoop self p ok n (i + 1) (errs + 1) found
        (io.modify fun m => m.store (failedAt p errs) a.val) := rfl

/-- The loop reads the addresses as they stand once one of them has not failed, and with the last
byte of the one in front until then. -/
theorem restartLoop_reads (n : ℕ) (herrs : errs ≤ i)
    (hhead : io.mem.load (p + tNode) body =
      mwifiAddrBroadcast.val ++ [BusType.request.byte, BusCmd.restart.byte]) :
    RestartsRead self p ok i errs found
      (if errs = i then readAddrs self ok none i (addrsAt io.mem (listedAt p i) n)
        else addrsAt io.mem (listedAt p i) n) io
      (restartLoop self p ok n i errs found io) := by
  induction n generalizing i errs found io with
  | zero =>
    have hnone : (if errs = i then readAddrs self ok none i (addrsAt io.mem (listedAt p i) 0)
        else addrsAt io.mem (listedAt p i) 0) = [] := ite_self _
    rw [hnone]
    exact .nil
  | succ n ih =>
    have hpacket : (io.mem.load (p + tNode) childPacketLen).take body =
        mwifiAddrBroadcast.val ++ [BusType.request.byte, BusCmd.restart.byte] := by
      rw [Mem.load_take _ _ _ _ (by decide), hhead]
    rw [restartLoop_succ, addrsAt_succ, listedAt_next]
    generalize io.mem.loadBytes (listedAt p i) 6 = a
    dsimp only
    have hlater : errs ≠ i + 1 := by omega
    have hstops : a = self ∨ ok i = true → (if errs = i then readAddrs self ok none i
        (a :: addrsAt io.mem (listedAt p (i + 1)) n)
        else a :: addrsAt io.mem (listedAt p (i + 1)) n) =
          a :: addrsAt io.mem (listedAt p (i + 1)) n := by
      intro h
      rw [readAddrs_none, if_pos h, ite_self]
    by_cases ha : a = self
    · have hrest := @ih (i + 1) errs true io (by omega) hhead
      rw [if_neg hlater] at hrest
      rw [if_pos ha.symm, hstops (.inl ha), ha]
      exact hrest.cons_self
    have hother : ¬ self = a := fun h => ha h.symm
    rw [if_neg hother]
    have hevent : IsRestartTo a (.mwifiWrite (some a) MwifiDataType.zero
        (io.mem.load (p + tNode) childPacketLen)) := ⟨_, rfl, hpacket⟩
    by_cases hok : ok i = true
    · have hrest := @ih (i + 1) errs found (io.emit
        (.mwifiWrite (some a) MwifiDataType.zero (io.mem.load (p + tNode) childPacketLen)))
        (by omega) hhead
      rw [if_neg hlater] at hrest
      rw [if_pos hok, hstops (.inr hok)]
      exact hrest.cons_ok ha hok hevent
    · have hfail : ok i = false := by simpa using hok
      have hkept : (io.mem.store (failedAt p errs) a.val).load (p + tNode) body =
          mwifiAddrBroadcast.val ++ [BusType.request.byte, BusCmd.restart.byte] := by
        rw [Mem.load_store_off _ _ _ _ _ (.inl (by simp only [failedAt]; omega)), hhead]
      have hrest := @ih (i + 1) (errs + 1) found ((io.emit
        (.mwifiWrite (some a) MwifiDataType.zero (io.mem.load (p + tNode) childPacketLen))).modify
          fun m => m.store (failedAt p errs) a.val) (by omega) hkept
      rw [if_neg hok]
      by_cases hall : errs = i
      · subst hall
        rw [if_pos rfl, Io.modify_mem, Io.emit_mem, readAddrs_failed] at hrest
        rw [if_pos rfl, readAddrs_none, if_neg (not_or.mpr ⟨ha, hok⟩)]
        exact hrest.cons_fail ha hfail hevent
      · have hone : ¬ errs + 1 = i + 1 := by omega
        rw [if_neg hone, Io.modify_mem, Io.emit_mem, addrsAt_failed_before a (by omega)] at hrest
        rw [if_neg hall]
        exact hrest.cons_fail ha hfail hevent

end Loop

/-! ## What a restart command should do -/

/-- The failure response with exactly these addresses. -/
structure IsFailureOf (failed : List Mac) (packet : List UInt8) : Prop where
  codes : (packet.drop (tNode + u8Type)).take 2 = [BusType.response.byte, BusCmd.restart.byte]
  response : packet.getD (tNode + body) 0 = busRestartError
  number : (packet.getD (tNode + body + respRestartNumber) 0).toNat = failed.length
  list : (packet.drop (tNode + body + u8DevAddr)).take (mwifiAddrLen * failed.length) =
    failed.flatMap (·.val)

def Event.isMwifiWrite : Event → Bool
  | .mwifiWrite _ _ _ => true
  | _ => false

/-- One request to each address but the root's, in order, and to nobody else; a response with the
failed ones; a restart of the root if it is listed. -/
structure RestartsListed (gSelfMac : Mac) (gSockfd : Option ℕ) (ok : ℕ → Bool)
    (addrs : List Mac) (events : List Event) : Prop where
  requests : List.Forall₂ IsRestartTo (otherAddrs gSelfMac addrs)
    (events.filter Event.isMwifiWrite)
  nobodyElse : ∀ dests type packet, .mwifiRootWrite dests type packet ∉ events
  responds : (∃ packet, .send packet ∈ events) ↔
    gSockfd.isSome = true ∧ failedAddrs gSelfMac ok 0 addrs ≠ []
  lists : ∀ packet, .send packet ∈ events → IsFailureOf (failedAddrs gSelfMac ok 0 addrs) packet
  restarts : .systemReboot ∈ events ↔ gSelfMac ∈ addrs

theorem IsFailureOf.unique {failed failed' : List Mac} {packet : List UInt8}
    (h : IsFailureOf failed packet) (h' : IsFailureOf failed' packet) : failed = failed' := by
  have hlen : failed.length = failed'.length := h.number.symm.trans h'.number
  have hlist := h.list
  rw [hlen, h'.list] at hlist
  exact (flatMap_val_inj (by decide) hlist).symm

theorem isRestartTo_unique {as bs : List Mac} {sent : List Event}
    (h : List.Forall₂ IsRestartTo as sent) (h' : List.Forall₂ IsRestartTo bs sent) : as = bs := by
  induction h generalizing bs with
  | nil =>
    cases h'
    rfl
  | cons hhead htail ih =>
    cases h' with
    | cons hhead' htail' =>
      obtain ⟨packet, rfl, -⟩ := hhead
      obtain ⟨packet', heq, -⟩ := hhead'
      rw [ih htail', Option.some.inj (Event.mwifiWrite.inj heq).1]

theorem requests_are_writes {as : List Mac} {sent : List Event}
    (h : List.Forall₂ IsRestartTo as sent) : ∀ event ∈ sent, event.isMwifiWrite = true := by
  induction h with
  | nil => exact fun event hmem => by cases hmem
  | cons hhead _ ih =>
    obtain ⟨packet, rfl, -⟩ := hhead
    exact List.forall_mem_cons.mpr ⟨rfl, ih⟩

section Command
variable {gSelfMac : Mac} {gSockfd : Option ℕ} {ok : ℕ → Bool} {read addrs : List Mac}

/-- Besides the requests there are at most the answer and the reboot. -/
theorem mem_events {sent events : List Event} {packet : List UInt8} {p q : Prop} [Decidable p]
    [Decidable q] (hwrites : ∀ event ∈ sent, event.isMwifiWrite = true)
    (hevents : events = sent ++ (if p then [.send packet] else []) ++
      if q then [.systemReboot] else []) (event : Event) (hevent : event.isMwifiWrite = false) :
    event ∈ events ↔ p ∧ event = .send packet ∨ q ∧ event = .systemReboot := by
  have hnot : event ∉ sent := fun hmem => by
    rw [hwrites event hmem] at hevent
    cases hevent
  rw [hevents, List.mem_append, List.mem_append, or_iff_right hnot]
  by_cases hp : p <;> by_cases hq : q <;> simp [hp, hq]

theorem filter_events {sent events : List Event} {packet : List UInt8} {p q : Prop} [Decidable p]
    [Decidable q] (hwrites : ∀ event ∈ sent, event.isMwifiWrite = true)
    (hevents : events = sent ++ (if p then [.send packet] else []) ++
      if q then [.systemReboot] else []) : events.filter Event.isMwifiWrite = sent := by
  have hanswer : (if p then [Event.send packet] else []).filter Event.isMwifiWrite = [] := by
    split <;> rfl
  have hreboot : (if q then [Event.systemReboot] else []).filter Event.isMwifiWrite = [] := by
    split <;> rfl
  rw [hevents, List.filter_append, List.filter_append, List.filter_eq_self.mpr hwrites, hanswer,
    hreboot, List.append_nil, List.append_nil]

/-- What is done about the addresses that are read is right for those listed exactly when they
lead to the same. -/
theorem restartsListed_iff {sent events : List Event} {packet : List UInt8}
    (hsent : List.Forall₂ IsRestartTo (otherAddrs gSelfMac read) sent)
    (hpacket : failedAddrs gSelfMac ok 0 read ≠ [] →
      IsFailureOf (failedAddrs gSelfMac ok 0 read) packet)
    (hevents : events = sent ++
      (if gSockfd.isSome = true ∧ failedAddrs gSelfMac ok 0 read ≠ [] then [.send packet]
        else []) ++
      if gSelfMac ∈ read then [.systemReboot] else []) :
    RestartsListed gSelfMac gSockfd ok addrs events ↔
      SameRestarts gSelfMac ok gSockfd.isSome 0 read addrs := by
  have hwrites := requests_are_writes hsent
  have hmem := mem_events hwrites hevents
  have hfilter := filter_events hwrites hevents
  have hsend : ∀ packet', .send packet' ∈ events ↔ packet' = packet ∧
      gSockfd.isSome = true ∧ failedAddrs gSelfMac ok 0 read ≠ [] := by
    intro packet'
    rw [hmem _ rfl]
    simp [and_comm]
  have hreboot : .systemReboot ∈ events ↔ gSelfMac ∈ read := by
    rw [hmem _ rfl]
    simp
  constructor
  · rintro ⟨hrequests, -, hresponds, hlists, hrestarts⟩
    refine ⟨?_, fun hsock => ?_, hreboot.symm.trans hrestarts⟩
    · rw [hfilter] at hrequests
      exact isRestartTo_unique hsent hrequests
    · by_cases hnone : failedAddrs gSelfMac ok 0 read = []
      · by_contra hne
        rw [hnone] at hne
        obtain ⟨packet', hanswer⟩ := hresponds.mpr ⟨hsock, Ne.symm hne⟩
        exact ((hsend packet').mp hanswer).2.2 hnone
      · exact (hpacket hnone).unique (hlists packet ((hsend packet).mpr ⟨rfl, hsock, hnone⟩))
  · rintro ⟨hothers, hfailed, hrestarts⟩
    refine ⟨?_, fun dests type packet' hroot => ?_, ?_, fun packet' hanswer => ?_,
      hreboot.trans hrestarts⟩
    · rw [hfilter, ← hothers]
      exact hsent
    · rw [hmem _ rfl] at hroot
      simp at hroot
    · constructor
      · rintro ⟨packet', hanswer⟩
        obtain ⟨-, hsock, hne⟩ := (hsend packet').mp hanswer
        exact ⟨hsock, hfailed hsock ▸ hne⟩
      · rintro ⟨hsock, hne⟩
        exact ⟨packet, (hsend packet).mpr ⟨rfl, hsock, (hfailed hsock).symm ▸ hne⟩⟩
    · obtain ⟨rfl, hsock, hne⟩ := (hsend packet').mp hanswer
      rw [← hfailed hsock]
      exact hpacket hne

end Command

/-! ## The command -/

/-- The addresses that the command in the slot lists. -/
def restartAddrs (m : Mem) (p : ℕ) : List Mac :=
  addrsAt m (p + tNode + body + tDevAddr) (m.byte (p + tNode + body)).toNat

def restartAnswer (p errs : ℕ) (m : Mem) : Mem :=
  m.store (p + tNode + u8Type) [BusType.response.byte]
    |>.store (p + tNode + body) [busRestartError]
    |>.store (p + tNode + body + respRestartNumber) [UInt8.ofNat errs]

theorem restartAnswer_failure {m : Mem} {p : ℕ} {failed : List Mac}
    (hhead : m.load (p + tNode) body =
      mwifiAddrBroadcast.val ++ [BusType.request.byte, BusCmd.restart.byte])
    (hlist : m.load (failedAt p 0) (mwifiAddrLen * failed.length) = failed.flatMap (·.val))
    (hlen : failed.length ≤ 10) :
    IsFailureOf failed ((restartAnswer p failed.length m).load p rootPacketLen) := by
  have hoff : ∀ a, a ≠ 12 → a ≠ 14 → a ≠ 15 →
      (restartAnswer p failed.length m).byte (p + a) = m.byte (p + a) := by
    intro a h12 h14 h15
    simp only [restartAnswer, tNode, body, u8Type, respRestartNumber]
    rw [Mem.store_byte_off, Mem.store_byte_off, Mem.store_byte_off]
    all_goals
      rw [List.length_singleton]
      omega
  have hcmd : m.byte (p + 13) = BusCmd.restart.byte := by
    have hlast := Mem.load_getD m (p + tNode) body 7 (by decide)
    rw [hhead] at hlast
    exact hlast.symm
  refine ⟨?_, ?_, ?_, ?_⟩
  · rw [Mem.load_drop _ _ _ _ (by decide), Mem.load_take _ _ _ _ (by decide)]
    refine (Mem.load_eq_list _ _ [BusType.response.byte, BusCmd.restart.byte]).mpr fun k hk => ?_
    match k, hk with
    | 0, _ => simp [restartAnswer, Mem.store_byte]
    | 1, _ => exact (hoff 13 (by decide) (by decide) (by decide)).trans hcmd
  · rw [Mem.load_getD _ _ _ _ (by decide)]
    simp [restartAnswer, Mem.store_byte]
  · rw [Mem.load_getD _ _ _ _ (by decide)]
    have hnumber := Mem.store_byte_at ((m.store (p + tNode + u8Type) [BusType.response.byte]).store
      (p + tNode + body) [busRestartError]) (p + tNode + body + respRestartNumber) 0
      [UInt8.ofNat failed.length] (by simp)
    refine (congrArg UInt8.toNat hnumber).trans ?_
    simp only [List.getD_cons_zero, UInt8.toNat_ofNat']
    omega
  · rw [Mem.load_drop _ _ _ _ (by decide), Mem.load_take _ _ _ _ ?_, ← hlist]
    · refine (Mem.load_eq_iff _ _ _ _ _).mpr fun k _ => ?_
      have hplace : p + (tNode + body + u8DevAddr) + k = p + (16 + k) := by
        simp only [tNode, body, u8DevAddr]
        omega
      have hplace' : failedAt p 0 + k = p + (16 + k) := by
        simp only [failedAt, tNode, body, u8DevAddr]
        omega
      rw [hplace, hplace', hoff _ (by omega) (by omega) (by omega)]
    · simp only [mwifiAddrLen, rootPacketLen, childPacketLen, tNode, body, u8DevAddr]
      omega

theorem readAddrs_length (self : Mac) (ok : ℕ → Bool) (carry : Option UInt8) (i : ℕ)
    (addrs : List Mac) : (readAddrs self ok carry i addrs).length = addrs.length := by
  induction addrs generalizing carry i with
  | nil => rfl
  | cons a addrs ih =>
    rw [readAddrs]
    split
    · rfl
    · rw [List.length_cons, ih, List.length_cons]

theorem failedAddrs_length (self : Mac) (ok : ℕ → Bool) (i : ℕ) (addrs : List Mac) :
    (failedAddrs self ok i addrs).length ≤ addrs.length := by
  induction addrs generalizing i with
  | nil => rfl
  | cons a addrs ih =>
    rw [failedAddrs]
    split
    · exact (ih _).trans (Nat.le_succ _)
    · exact Nat.succ_le_succ (ih _)

/-- The response behind the loop. -/
def answered (gSockfd : Option ℕ) (p errs : ℕ) (io : Io) : Io :=
  if errs = 0 then io else answer gSockfd p (restartAnswer p errs) io

theorem answer_events (gSockfd : Option ℕ) (p : ℕ) (failed : List Mac) (io : Io) :
    (answered gSockfd p failed.length io).trace.reverse = io.trace.reverse ++
      if gSockfd.isSome = true ∧ failed ≠ [] then
        [.send ((restartAnswer p failed.length io.mem).load p rootPacketLen)] else [] := by
  unfold answered answer
  cases failed with
  | nil => simp
  | cons a failed => cases gSockfd <;> simp [sendSlot]

/-- What the command does, in terms of the addresses that are read. -/
theorem rootDoRestart_events (w : World) (p : ℕ) (e : CmdEnv) (m : Mem)
    (hnum : 1 ≤ (m.byte (p + tNode + body)).toNat)
    (hmax : (m.byte (p + tNode + body)).toNat ≤ 10) :
    let read := readAddrs w.gSelfMac e.mwifiWriteOk none 0 (restartAddrs m p)
    ∃ sent packet, List.Forall₂ IsRestartTo (otherAddrs w.gSelfMac read) sent ∧
      IsFailureOf (failedAddrs w.gSelfMac e.mwifiWriteOk 0 read) packet ∧
      (rootDoRestart w p e ⟨m, []⟩).trace.reverse = sent ++
        (if w.gSockfd.isSome = true ∧ failedAddrs w.gSelfMac e.mwifiWriteOk 0 read ≠ [] then
          [.send packet] else []) ++
        if w.gSelfMac ∈ read then [.systemReboot] else [] := by
  have hbyte : (busHeader (p + tNode) .request .restart m).byte (p + tNode + body) =
      m.byte (p + tNode + body) :=
    busHeader_byte_off _ _ _ _ _ (.inr (by simp only [body]; omega))
  have haddrs : addrsAt (busHeader (p + tNode) .request .restart m) (listedAt p 0)
      (m.byte (p + tNode + body)).toNat = restartAddrs m p :=
    addrsAt_congr fun k _ => busHeader_byte_off _ _ _ _ _
      (.inr (by simp only [listedAt, body, tDevAddr]; omega))
  have hreads := @restartLoop_reads w.gSelfMac p e.mwifiWriteOk 0 0 false
    ⟨busHeader (p + tNode) .request .restart m, []⟩
    (m.byte (p + tNode + body)).toNat (le_refl 0) (busHeader_load ..)
  rw [if_pos rfl, haddrs] at hreads
  unfold rootDoRestart
  dsimp only [Io.modify]
  rw [hbyte, if_neg (by omega)]
  generalize restartLoop w.gSelfMac p e.mwifiWriteOk (m.byte (p + tNode + body)).toNat 0 0 false
    ⟨busHeader (p + tNode) .request .restart m, []⟩ = r at hreads ⊢
  obtain ⟨io, errs, found⟩ := r
  obtain ⟨⟨sent, htrace, hsent⟩, hcount, hrestarts, hhead, hlist⟩ := hreads
  generalize hread : readAddrs w.gSelfMac e.mwifiWriteOk none 0 (restartAddrs m p) = read at *
  have hlen : (failedAddrs w.gSelfMac e.mwifiWriteOk 0 read).length ≤ 10 := by
    refine (failedAddrs_length ..).trans ?_
    rw [← hread, readAddrs_length, restartAddrs, addrsAt, List.length_map, List.length_range]
    exact hmax
  obtain rfl : errs = (failedAddrs w.gSelfMac e.mwifiWriteOk 0 read).length := by
    simpa using hcount
  have hanswer := answer_events w.gSockfd p (failedAddrs w.gSelfMac e.mwifiWriteOk 0 read) io
  refine ⟨sent, _, hsent, restartAnswer_failure (hhead.trans (busHeader_load ..)) hlist hlen, ?_⟩
  have hself : found = true ↔ w.gSelfMac ∈ read := by simpa using hrestarts
  dsimp only at htrace ⊢
  change (if found = true then (answered w.gSockfd p _ io).emit .systemReboot
    else answered w.gSockfd p _ io).trace.reverse = _
  by_cases hmem : w.gSelfMac ∈ read
  · rw [if_pos (hself.mpr hmem), if_pos hmem, Io.emit_trace, List.reverse_cons, hanswer, htrace]
    simp
  · rw [if_neg (hself.not.mpr hmem), if_neg hmem, hanswer, htrace]
    simp

/-- **Restart.** A restart command does to the devices it lists, and to nobody else, what it
should, exactly when the addresses up to the first one that does not fail each begin with the last
byte of the one in front, or when the root's own is swapped with the next. -/
theorem restart_reaches_listed (w : World) (p : ℕ) (e : CmdEnv) (m : Mem)
    (hnum : 1 ≤ (m.byte (p + tNode + body)).toNat)
    (hmax : (m.byte (p + tNode + body)).toNat ≤ 10) :
    RestartsListed w.gSelfMac w.gSockfd e.mwifiWriteOk (restartAddrs m p)
        (rootDoRestart w p e ⟨m, []⟩).trace.reverse ↔
      KeepsAddrs w.gSelfMac e.mwifiWriteOk w.gSockfd.isSome none 0 (restartAddrs m p) := by
  obtain ⟨sent, packet, hsent, hpacket, hevents⟩ := rootDoRestart_events w p e m hnum hmax
  rw [restartsListed_iff hsent (fun _ => hpacket) hevents]
  exact sameRestarts_iff w.gSockfd.isSome (restartAddrs m p)

/-- A command in the first slot for five devices: the second address begins with the last byte of
the first, and the third, which is the root's own, with that of the second. -/
def restartFive : Mem := (Mem.mk (fun _ => 0) []).store 14
  ([5] ++ [10, 10, 10, 10, 10, 7] ++ [7, 11, 11, 11, 11, 2] ++ (macOf 2).val ++ (macOf 12).val ++
    (macOf 13).val)

def restartFiveAddrs : List Mac :=
  [⟨[10, 10, 10, 10, 10, 7], rfl⟩, ⟨[7, 11, 11, 11, 11, 2], rfl⟩, macOf 2, macOf 12, macOf 13]

/-- The writes to all but the fourth device fail. -/
def writesFail : CmdEnv := { idleCmd with mwifiWriteOk := fun i => i == 3 }

def linkedRoot : World := { zeroBoot.w with gSockfd := some 4 }

theorem restartFive_addrs : restartAddrs restartFive 0 = restartFiveAddrs := by
  decide

theorem restart_reaches_listed_five :
    failedAddrs (macOf 2) writesFail.mwifiWriteOk 0 restartFiveAddrs =
        [⟨[10, 10, 10, 10, 10, 7], rfl⟩, ⟨[7, 11, 11, 11, 11, 2], rfl⟩, macOf 13] ∧
      RestartsListed (macOf 2) (some 4) writesFail.mwifiWriteOk (restartAddrs restartFive 0)
        (rootDoRestart linkedRoot 0 writesFail ⟨restartFive, []⟩).trace.reverse := by
  refine ⟨by decide,
    (restart_reaches_listed linkedRoot 0 writesFail restartFive (by decide) (by decide)).mpr ?_⟩
  rw [restartFive_addrs]
  refine .inl ⟨fun b hb => (by cases hb), .inr (.inr ?_)⟩
  refine .inl ⟨fun b hb => (by cases hb; rfl), .inr (.inr ?_)⟩
  exact .inl ⟨fun b hb => (by cases hb; rfl), .inl rfl⟩

/-- A command for the devices 0a:.. and 0b:.. in the first slot. -/
def restartTwo : Mem := (Mem.mk (fun _ => 0) []).store 14 (2 :: (macOf 10).val ++ (macOf 11).val)

theorem restartTwo_addrs : restartAddrs restartTwo 0 = [macOf 10, macOf 11] := by
  decide

/-- The first write fails: the second request goes to 0a:0b:0b:0b:0b:0b. -/
theorem restart_misses_second :
    ¬ ∀ (w : World) (p : ℕ) (e : CmdEnv) (m : Mem),
      1 ≤ (m.byte (p + tNode + body)).toNat → (m.byte (p + tNode + body)).toNat ≤ 10 →
      RestartsListed w.gSelfMac w.gSockfd e.mwifiWriteOk (restartAddrs m p)
        (rootDoRestart w p e ⟨m, []⟩).trace.reverse := by
  intro h
  have hlisted := h zeroBoot.w 0 { idleCmd with mwifiWriteOk := fun i => i != 0 } restartTwo
    (by decide) (by decide)
  obtain ⟨sent, packet, hsent, hpacket, hevents⟩ := rootDoRestart_events zeroBoot.w 0
    { idleCmd with mwifiWriteOk := fun i => i != 0 } restartTwo (by decide) (by decide)
  have hkeeps := (sameRestarts_iff _ _).mp
    ((restartsListed_iff hsent (fun _ => hpacket) hevents).mp hlisted)
  rw [restartTwo_addrs] at hkeeps
  rcases hkeeps with ⟨-, hself | hok | ⟨hbyte, -⟩ | ⟨b, -, hswapped⟩⟩ | ⟨b, hb, -⟩
  · exact absurd hself (by decide)
  · cases hok
  · exact absurd (hbyte _ rfl) (by decide)
  · exact absurd hswapped.2.1 (by decide)
  · cases hb

end EspMesh
