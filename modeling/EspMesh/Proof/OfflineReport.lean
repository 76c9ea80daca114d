import EspMesh.Model.RootSend

/-! # Which nodes are reported offline

The routing table is read into the packet behind the room for twenty removed addresses, and the
21st removed address and those behind it are written over it. A node is looked for in what is then
left of the table.
-/

namespace EspMesh
set_option autoImplicit false
set_option maxRecDepth 20000
open ByteMem Mem

/-! ## The walk on the addresses -/

/-- The table when the addresses `gone` have been listed in front of it. -/
def tableNow (table gone : List Mac) : List Mac :=
  table.mapIdx fun i a => gone.getD (maxMeshSize + i) a

/-- The addresses the walk over `macs` lists behind `gone`. -/
def offlineGone (table : List Mac) : List Mac → List Mac → List Mac
  | _, [] => []
  | gone, a :: macs =>
    if (tableNow table gone).contains a then offlineGone table gone macs
    else a :: offlineGone table (gone ++ [a]) macs

def absentOf (table macs : List Mac) : List Mac := macs.filter fun a => !table.contains a

/-- Each address is in the table, `gone` being the absent ones in front of it, exactly when it is
in what these leave of the table. -/
def TableOutlives (table : List Mac) : List Mac → List Mac → Prop
  | _, [] => True
  | gone, a :: macs =>
    (a ∈ tableNow table gone ↔ a ∈ table) ∧
      TableOutlives table (if table.contains a then gone else gone ++ [a]) macs

section Walk
variable {table : List Mac}

theorem absentOf_cons_mem {a : Mac} (h : a ∈ table) (macs : List Mac) :
    absentOf table (a :: macs) = absentOf table macs :=
  List.filter_cons_of_neg (by simpa using h)

theorem absentOf_cons {a : Mac} (h : a ∉ table) (macs : List Mac) :
    absentOf table (a :: macs) = a :: absentOf table macs :=
  List.filter_cons_of_pos (by simpa using h)

theorem absentOf_not_mem {a : Mac} {macs : List Mac} (h : a ∈ absentOf table macs) : a ∉ table := by
  simpa using (List.mem_filter.mp h).2

theorem sublist_absentOf {xs macs : List Mac} (h : xs.Sublist macs) (hx : ∀ a ∈ xs, a ∉ table) :
    xs.Sublist (absentOf table macs) := by
  have hfilter := h.filter fun a => !table.contains a
  rwa [List.filter_eq_self.mpr (by simpa using hx)] at hfilter

theorem offlineGone_sublist (gone macs : List Mac) :
    (offlineGone table gone macs).Sublist macs := by
  induction macs generalizing gone with
  | nil => exact List.Sublist.refl _
  | cons a macs ih =>
    rw [offlineGone]
    split
    · exact (ih gone).cons a
    · exact (ih (gone ++ [a])).cons_cons a

/-- The walk lists the absent addresses exactly when it finds every other one. -/
theorem offlineGone_eq_iff (gone macs : List Mac) :
    offlineGone table gone macs = absentOf table macs ↔ TableOutlives table gone macs := by
  induction macs generalizing gone with
  | nil => exact iff_of_true rfl trivial
  | cons a macs ih =>
    rw [offlineGone, TableOutlives]
    by_cases hmem : a ∈ table
    · have hin : table.contains a = true := by simpa using hmem
      rw [absentOf_cons_mem hmem, iff_true_right hmem, if_pos hin]
      by_cases hnow : a ∈ tableNow table gone
      · rw [if_pos (by simpa using hnow), ih, and_iff_right hnow]
      · rw [if_neg (by simpa using hnow), iff_false_right fun h => hnow h.1]
        intro hlist
        exact absentOf_not_mem (hlist ▸ List.mem_cons_self ..) hmem
    · have hin : ¬ table.contains a = true := by simpa using hmem
      rw [absentOf_cons hmem, iff_false_right hmem, if_neg hin]
      by_cases hnow : a ∈ tableNow table gone
      · rw [if_pos (by simpa using hnow), iff_false_right fun h => h.1 hnow]
        intro hlist
        have hout : ∀ b ∈ offlineGone table gone macs, b ∉ table := by
          rw [hlist]
          exact List.forall_mem_cons.mpr ⟨hmem, fun b hb => absentOf_not_mem hb⟩
        have hlen := (sublist_absentOf (offlineGone_sublist gone macs) hout).length_le
        rw [hlist, List.length_cons] at hlen
        omega
      · rw [if_neg (by simpa using hnow), List.cons.injEq, ih, and_iff_right rfl,
          and_iff_right hnow]

theorem tableNow_of_few {gone : List Mac} (h : gone.length ≤ maxMeshSize) :
    tableNow table gone = table := by
  rw [tableNow, List.mapIdx_eq_iff]
  intro i
  cases table[i]? with
  | none => rfl
  | some a => rw [Option.map_some, List.getD_eq_default _ _ (by omega)]

/-- The first twenty absent addresses do no harm. -/
theorem tableOutlives_of_few {gone macs : List Mac}
    (h : gone.length + (absentOf table macs).length ≤ maxMeshSize) :
    TableOutlives table gone macs := by
  induction macs generalizing gone with
  | nil => trivial
  | cons a macs ih =>
    have hall : tableNow table gone = table := tableNow_of_few (by omega)
    refine ⟨by rw [hall], ?_⟩
    by_cases hmem : a ∈ table
    · rw [absentOf_cons_mem hmem] at h
      rw [if_pos (by simpa using hmem)]
      exact ih h
    · rw [absentOf_cons hmem, List.length_cons] at h
      rw [if_neg (by simpa using hmem)]
      refine ih ?_
      rw [List.length_append, List.length_singleton]
      omega

end Walk

/-! ## The walk in the packet -/

def removedAt (p i : ℕ) : ℕ := p + tNode + body + u8DevMac + mwifiAddrLen * i

theorem tableAddr_entry (p i : ℕ) :
    tableAddr p + mwifiAddrLen * i = removedAt p (maxMeshSize + i) := by
  simp only [tableAddr, removedAt, tNode, body, unregisterDummy, u8DevMac, mwifiAddrLen,
    maxMeshSize]
  omega

/-- The packet after the addresses `gone` have been listed. -/
structure Walked (p : ℕ) (table gone : List Mac) (m : Mem) : Prop where
  listed : ∀ i a, gone[i]? = some a → m.loadBytes (removedAt p i) 6 = a
  left : ∀ i a, (tableNow table gone)[i]? = some a →
    m.loadBytes (removedAt p (maxMeshSize + i)) 6 = a

section Packet
variable {p : ℕ} {table gone : List Mac} {m : Mem}

theorem store_removedAt (a : Mac) (k i : ℕ) (m : Mem) :
    (m.store (removedAt p k) a.val).loadBytes (removedAt p i) 6 =
      if i = k then a else m.loadBytes (removedAt p i) 6 := by
  have ha := a.2
  by_cases h : i = k
  · rw [if_pos h, h]
    have hself := load_store_self m (removedAt p k) a.val
    rw [ha] at hself
    exact Subtype.ext hself
  · rw [if_neg h]
    refine Subtype.ext (load_store_off m _ _ 6 a.val ?_)
    simp only [removedAt, mwifiAddrLen, ha]
    omega

theorem getD_concat (gone : List Mac) (a t : Mac) (i : ℕ) :
    (gone ++ [a]).getD i t = if i = gone.length then a else gone.getD i t := by
  simp only [List.getD_eq_getElem?_getD, List.getElem?_append]
  split
  · next hlt => rw [if_neg (by omega)]
  · split
    · next heq => simp [heq]
    · next hne =>
      have hpos : i - gone.length = i - gone.length - 1 + 1 := by omega
      rw [hpos, List.getElem?_cons_succ, List.getElem?_nil, List.getElem?_eq_none (by omega)]

theorem Walked.start (p : ℕ) (table : List Mac) (m : Mem) :
    Walked p table [] (m.store (tableAddr p) (table.flatMap (·.val))) := by
  refine ⟨fun i a h => by simp at h, fun i a h => ?_⟩
  have hself := load_store_self m (tableAddr p) (table.flatMap (·.val))
  rw [flatMap_val_length, load_flatMap_iff] at hself
  rw [tableNow_of_few (Nat.zero_le _)] at h
  rw [← tableAddr_entry]
  exact hself i a h

theorem Walked.list (h : Walked p table gone m) (a : Mac) :
    Walked p table (gone ++ [a]) (m.store (removedAt p gone.length) a.val) := by
  constructor
  · intro i b hb
    rw [store_removedAt]
    split
    · next hi => simpa [hi] using hb
    · next hi =>
      rw [List.getElem?_append] at hb
      split at hb
      · exact h.listed i b hb
      · rw [List.getElem?_eq_none (by simp; omega)] at hb
        cases hb
  · intro i b hb
    rw [store_removedAt]
    rw [tableNow, List.getElem?_mapIdx, Option.map_eq_some_iff] at hb
    obtain ⟨t, ht, rfl⟩ := hb
    rw [getD_concat]
    split
    · rfl
    · refine h.left i _ ?_
      rw [tableNow, List.getElem?_mapIdx, ht, Option.map_some]

theorem Walked.absent_iff (h : Walked p table gone m) (a : Mac) :
    offlineAbsent p table.length a m = true ↔ a ∉ tableNow table gone := by
  have hlen : (tableNow table gone).length = table.length := List.length_mapIdx
  rw [offlineAbsent, List.all_eq_true, List.mem_iff_getElem?]
  simp only [List.mem_range, bne_iff_ne, not_exists]
  refine forall_congr' fun i => ?_
  rw [tableAddr_entry]
  cases hi : (tableNow table gone)[i]? with
  | none =>
    rw [List.getElem?_eq_none_iff] at hi
    exact iff_of_true (fun hlt => absurd hlt (by omega)) (by simp)
  | some b =>
    have hlt : i < table.length := hlen ▸ (List.getElem?_eq_some_iff.mp hi).1
    rw [load, h.left i b hi]
    simp only [hlt, true_imp_iff, Option.some.injEq]
    exact not_congr (Subtype.ext_iff.symm)

end Packet

/-! ## The loop -/

section Deletion
variable {a : Mac} {kept : List NodeInfo}

theorem delNode_kept (h : a ∈ kept.map NodeInfo.mac) (nodes : List NodeInfo) :
    delNodeFromNodedevList a (kept ++ nodes) = delNodeFromNodedevList a kept ++ nodes := by
  induction kept with
  | nil => simp at h
  | cons n kept ih =>
    rw [List.cons_append, delNodeFromNodedevList, delNodeFromNodedevList]
    by_cases hn : n.mac = a
    · rw [if_pos hn, if_pos hn]
    · rw [if_neg hn, if_neg hn, ih (by simpa [Ne.symm hn] using h), List.cons_append]

theorem delNode_behind (h : a ∉ kept.map NodeInfo.mac) (nodes : List NodeInfo) :
    delNodeFromNodedevList a (kept ++ nodes) = kept ++ delNodeFromNodedevList a nodes := by
  induction kept with
  | nil => rfl
  | cons n kept ih =>
    rw [List.map_cons, List.mem_cons, not_or] at h
    rw [List.cons_append, delNodeFromNodedevList, if_neg (Ne.symm h.1), ih h.2, List.cons_append]

theorem delNode_length (h : a ∈ kept.map NodeInfo.mac) :
    (delNodeFromNodedevList a kept).length + 1 = kept.length := by
  induction kept with
  | nil => simp at h
  | cons n kept ih =>
    rw [delNodeFromNodedevList]
    by_cases hn : n.mac = a
    · rw [if_pos hn, List.length_cons]
    · rw [if_neg hn, List.length_cons, List.length_cons, ih (by simpa [Ne.symm hn] using h)]

end Deletion

section Loop
variable {p : ℕ} {table : List Mac}

theorem offlineLoop_walked {gone : List Mac} {m : Mem} (h : Walked p table gone m)
    (next nodes : List NodeInfo) :
    let all := gone ++ offlineGone table gone (next.map NodeInfo.mac)
    Walked p table all (offlineLoop p table.length next nodes gone.length m).1 ∧
      (offlineLoop p table.length next nodes gone.length m).2.2 = all.length := by
  induction next generalizing gone nodes m with
  | nil => exact ⟨by simpa [offlineLoop, offlineGone] using h, by simp [offlineLoop, offlineGone]⟩
  | cons head next ih =>
    rw [offlineLoop, List.map_cons, offlineGone]
    by_cases hnow : head.mac ∈ tableNow table gone
    · rw [if_neg fun habs => (h.absent_iff _).mp habs hnow, if_pos (by simpa using hnow)]
      exact ih h nodes
    · rw [if_pos ((h.absent_iff _).mpr hnow), if_neg (by simpa using hnow)]
      have hrest := ih (h.list head.mac) (delNodeFromNodedevList head.mac nodes)
      rwa [List.length_append, List.length_singleton, List.append_assoc, List.singleton_append]
        at hrest

/-- Every address listed is the address of an entry deleted. -/
theorem offlineLoop_length (n : ℕ) (next kept : List NodeInfo) (rmNum : ℕ) (m : Mem) :
    (offlineLoop p n next (kept ++ next) rmNum m).2.1.length +
      (offlineLoop p n next (kept ++ next) rmNum m).2.2 = (kept ++ next).length + rmNum := by
  induction next generalizing kept rmNum m with
  | nil => rfl
  | cons head next ih =>
    have hshift (xs : List NodeInfo) : xs ++ head :: next = (xs ++ [head]) ++ next := by simp
    rw [offlineLoop]
    split
    · by_cases hkept : head.mac ∈ kept.map NodeInfo.mac
      · rw [delNode_kept hkept, hshift, ih]
        have hone := delNode_length hkept
        simp only [List.length_append, List.length_cons, List.length_nil]
        omega
      · rw [delNode_behind hkept, delNodeFromNodedevList, if_pos rfl, ih]
        simp only [List.length_append, List.length_cons]
        omega
    · rw [hshift, ih]

theorem offlineLoop_left {gone : List Mac} {m : Mem} (h : Walked p table gone m)
    (next : List NodeInfo) {kept : List NodeInfo} (hkept : ∀ n ∈ kept, n.mac ∈ table)
    (hlives : TableOutlives table gone (next.map NodeInfo.mac)) :
    (offlineLoop p table.length next (kept ++ next) gone.length m).2.1 =
      kept ++ next.filter fun n => table.contains n.mac := by
  induction next generalizing kept gone m with
  | nil => rfl
  | cons head next ih =>
    rw [List.map_cons, TableOutlives] at hlives
    obtain ⟨hiff, hlives⟩ := hlives
    rw [offlineLoop]
    by_cases hmem : head.mac ∈ table
    · have hin : table.contains head.mac = true := by simpa using hmem
      have hstays : kept ++ head :: next = (kept ++ [head]) ++ next := by simp
      have hkept' : ∀ n ∈ kept ++ [head], n.mac ∈ table :=
        List.forall_mem_append.mpr ⟨hkept, List.forall_mem_singleton.mpr hmem⟩
      have hfilter := List.filter_cons_of_pos (p := fun n : NodeInfo => table.contains n.mac)
        (a := head) (l := next) hin
      rw [if_pos hin] at hlives
      rw [if_neg fun habs => (h.absent_iff _).mp habs (hiff.mpr hmem), hfilter, hstays,
        ih h hkept' hlives, List.append_assoc, List.singleton_append]
    · have hin : ¬ table.contains head.mac = true := by simpa using hmem
      have hother : head.mac ∉ kept.map NodeInfo.mac := by
        intro hk
        obtain ⟨n, hn, hmac⟩ := List.mem_map.mp hk
        exact hmem (hmac ▸ hkept n hn)
      have hfilter := List.filter_cons_of_neg (p := fun n : NodeInfo => table.contains n.mac)
        (a := head) (l := next) hin
      rw [if_neg hin] at hlives
      rw [if_pos ((h.absent_iff _).mpr fun hnow => hmem (hiff.mp hnow)), hfilter,
        delNode_behind hother, delNodeFromNodedevList, if_pos rfl]
      have hrest := ih (h.list head.mac) hkept hlives
      rwa [List.length_append, List.length_singleton] at hrest

end Loop

/-! ## What an offline event should do -/

/-- The NODE_UNREGISTER packet with exactly these addresses. -/
structure IsUnregisterOf (gSelfMac : Mac) (gone : List Mac) (packet : List UInt8) : Prop where
  header : packet.take (tNode + body) = gSelfMac.val ++
    (mwifiAddrBroadcast.val ++ [BusType.request.byte, BusCmd.nodeUnregister.byte])
  number : (packet.getD (tNode + body) 0).toNat = gone.length
  list : (packet.drop (tNode + body + u8DevMac)).take (mwifiAddrLen * gone.length) =
    gone.flatMap (·.val)

/-- The registry is left with the nodes in the table, and the others are reported if there are
any. -/
structure RemovesAbsent (gSelfMac : Mac) (table : List Mac) (nodes : List NodeInfo) (io : Io)
    (out : Io × List NodeInfo) : Prop where
  registry : out.2 = nodes.filter fun n => table.contains n.mac
  silent : absentOf table (nodes.map NodeInfo.mac) = [] → out.1.trace = io.trace
  report : absentOf table (nodes.map NodeInfo.mac) ≠ [] →
    ∃ packet, out.1.trace = .send packet :: io.trace ∧
      IsUnregisterOf gSelfMac (absentOf table (nodes.map NodeInfo.mac)) packet

/-- The addresses that fit in the packet. -/
def unregisterRoom : ℕ := (rootPacketLen - (tNode + body + u8DevMac)) / mwifiAddrLen

/-! ## The packet -/

section Report
variable {p : ℕ} {table gone : List Mac} {m : Mem}

def buildUnregister (gSelfMac : Mac) (p num : ℕ) (m : Mem) : Mem :=
  m.store p gSelfMac.val
    |> busHeader (p + tNode) .request .nodeUnregister
    |>.store (p + tNode + body) [UInt8.ofNat num]

theorem buildUnregister_header (gSelfMac : Mac) (num : ℕ) :
    ((buildUnregister gSelfMac p num m).load p rootPacketLen).take (tNode + body) =
      gSelfMac.val ++
        (mwifiAddrBroadcast.val ++ [BusType.request.byte, BusCmd.nodeUnregister.byte]) := by
  have hself := load_store_self m p gSelfMac.val
  rw [gSelfMac.2] at hself
  rw [load_take _ _ _ _ (by simp), load_append, buildUnregister,
    load_store_off _ _ _ _ _ (.inl (by simp)), load_store_off _ _ _ _ _ (.inl (by simp)),
    busHeader_load]
  refine congrArg (· ++ _) (Eq.trans ?_ hself)
  refine (load_eq_iff _ _ _ _ _).mpr fun i hi => busHeader_byte_off _ _ _ _ _ (.inl ?_)
  simp only [tNode] at hi ⊢
  omega

theorem buildUnregister_number (gSelfMac : Mac) (num : ℕ) :
    ((buildUnregister gSelfMac p num m).load p rootPacketLen).getD (tNode + body) 0 =
      UInt8.ofNat num := by
  rw [load_getD _ _ _ _ (by simp), buildUnregister]
  exact store_byte_at _ _ 0 _ (by simp)

theorem buildUnregister_list (gSelfMac : Mac) (num : ℕ) (h : Walked p table gone m)
    (hroom : gone.length ≤ unregisterRoom) :
    (((buildUnregister gSelfMac p num m).load p rootPacketLen).drop
      (tNode + body + u8DevMac)).take (mwifiAddrLen * gone.length) = gone.flatMap (·.val) := by
  have hfits : mwifiAddrLen * gone.length ≤ rootPacketLen - (tNode + body + u8DevMac) :=
    (Nat.mul_le_mul_left _ hroom).trans (by decide)
  rw [load_drop _ _ _ _ (by simp), load_take _ _ _ _ hfits,
    ← (load_flatMap_iff m (removedAt p 0) gone).mpr fun i a hi => ?_]
  · refine (load_eq_iff _ _ _ _ _).mpr fun i _ => ?_
    have haddr : p + (tNode + body + u8DevMac) + i = p + 15 + i := rfl
    rw [haddr, buildUnregister, store_byte_off _ _ _ _ (.inr (by simp)),
      busHeader_byte_off _ _ _ _ _ (.inr (by simp; omega)),
      store_byte_off _ _ _ _ (.inr (by rw [gSelfMac.2]; omega))]
    rfl
  · exact h.listed i a hi

end Report

/-! ## Every registry and every table -/

/-- What the walk lists and leaves, and what is sent of it. -/
theorem offline_out (gSelfMac : Mac) (table : List Mac) (p : ℕ) (io : Io) (nodes : List NodeInfo) :
    let gone := offlineGone table [] (nodes.map NodeInfo.mac)
    let out := rootDoChildOffline gSelfMac MsgqueueType.nodeRemove.byte (some table) p io nodes
    out.2.length + gone.length = nodes.length ∧
      (TableOutlives table [] (nodes.map NodeInfo.mac) →
        out.2 = nodes.filter fun n => table.contains n.mac) ∧
      (gone = [] → out.1.trace = io.trace) ∧
      (gone ≠ [] → ∃ m, Walked p table gone m ∧ out.1.trace =
        .send ((buildUnregister gSelfMac p gone.length m).load p rootPacketLen) :: io.trace) := by
  intro gone out
  have hstart := Walked.start p table io.mem
  obtain ⟨hwalked, hnum⟩ := offlineLoop_walked hstart nodes nodes
  have hlen := offlineLoop_length (p := p) table.length nodes [] 0
    (io.mem.store (tableAddr p) (table.flatMap (·.val)))
  have hnone : ∀ n ∈ ([] : List NodeInfo), n.mac ∈ table := by simp
  have hleft := offlineLoop_left hstart nodes hnone
  rw [List.nil_append] at hwalked hnum hlen hleft
  simp only [List.length_nil, Nat.add_zero] at hwalked hnum hlen hleft
  have hout : out = rootDoChildOffline gSelfMac MsgqueueType.nodeRemove.byte (some table) p io
    nodes := rfl
  simp only [rootDoChildOffline, ne_eq, not_true_eq_false, if_false, hnum] at hout
  rw [hnum] at hlen
  by_cases hnil : gone = []
  · rw [if_pos (List.length_eq_zero_iff.mpr hnil)] at hout
    rw [hout]
    exact ⟨hlen, hleft, fun _ => rfl, fun hne => absurd hnil hne⟩
  · rw [if_neg (mt List.length_eq_zero_iff.mp hnil)] at hout
    rw [hout]
    exact ⟨hlen, hleft, fun h => absurd h hnil, fun _ => ⟨_, hwalked, rfl⟩⟩

theorem absentOf_length (table : List Mac) (nodes : List NodeInfo) :
    (nodes.filter fun n => table.contains n.mac).length +
      (absentOf table (nodes.map NodeInfo.mac)).length = nodes.length := by
  rw [absentOf, List.filter_map, List.length_map]
  exact (List.length_eq_length_filter_add _).symm

theorem removesAbsent_iff (gSelfMac : Mac) (table : List Mac) (p : ℕ) (io : Io)
    (nodes : List NodeInfo) :
    RemovesAbsent gSelfMac table nodes io
        (rootDoChildOffline gSelfMac MsgqueueType.nodeRemove.byte (some table) p io nodes) ↔
      TableOutlives table [] (nodes.map NodeInfo.mac) ∧
        (absentOf table (nodes.map NodeInfo.mac)).length ≤ unregisterRoom := by
  obtain ⟨hlen, hleft, hsilent, hreport⟩ := offline_out gSelfMac table p io nodes
  have hcount := absentOf_length table nodes
  rw [← offlineGone_eq_iff] at hleft ⊢
  generalize offlineGone table [] (nodes.map NodeInfo.mac) = gone at *
  generalize hgone : absentOf table (nodes.map NodeInfo.mac) = absent at *
  constructor
  · intro h
    have hsame : gone.length = absent.length := by
      rw [h.registry] at hlen
      omega
    by_cases hnil : absent = []
    · rw [hnil, List.length_nil] at hsame
      exact ⟨(List.length_eq_zero_iff.mp hsame).trans hnil.symm, by simp [hnil]⟩
    · obtain ⟨packet, htrace, hpacket⟩ := h.report (by rwa [hgone])
      obtain ⟨m, hm, htrace'⟩ := hreport fun h => hnil (by simpa [h] using hsame.symm)
      rw [htrace', List.cons.injEq, Event.send.injEq] at htrace
      obtain ⟨rfl, -⟩ := htrace
      have hlist := hpacket.list
      rw [hgone] at hlist
      have hroom : absent.length ≤ unregisterRoom := by
        have hbytes := congrArg List.length hlist
        rw [flatMap_val_length, List.length_take, List.length_drop, load_length] at hbytes
        simp only [mwifiAddrLen, rootPacketLen, childPacketLen, tNode, body, u8DevMac,
          unregisterRoom] at hbytes ⊢
        omega
      rw [← hsame, buildUnregister_list gSelfMac _ hm (by rwa [hsame])] at hlist
      exact ⟨flatMap_val_inj (by decide) hlist, hroom⟩
  · rintro ⟨rfl, hroom⟩
    refine ⟨hleft rfl, fun hnil => hsilent (hgone.symm.trans hnil), fun hne => ?_⟩
    rw [hgone] at hne ⊢
    obtain ⟨m, hm, htrace⟩ := hreport hne
    refine ⟨_, htrace, buildUnregister_header _ _, ?_, buildUnregister_list _ _ hm hroom⟩
    rw [buildUnregister_number, UInt8.toNat_ofNat']
    exact Nat.mod_eq_of_lt (lt_of_le_of_lt hroom (by decide))

/-- **Offline nodes.** For every registry and every routing table, the nodes that are not in the
table are removed and listed in the packet, and no others, exactly when each registered node of
the table is still in it when its turn comes, each absent one is not there by then, and at most
236 are absent; if the table cannot be read, nothing changes. -/
theorem offline_removes_absent (gSelfMac : Mac) (table : List Mac) (p : ℕ) (io : Io)
    (nodes : List NodeInfo) :
    (RemovesAbsent gSelfMac table nodes io
        (rootDoChildOffline gSelfMac MsgqueueType.nodeRemove.byte (some table) p io nodes) ↔
      TableOutlives table [] (nodes.map NodeInfo.mac) ∧
        (absentOf table (nodes.map NodeInfo.mac)).length ≤ unregisterRoom) ∧
      rootDoChildOffline gSelfMac MsgqueueType.nodeRemove.byte none p io nodes = (io, nodes) :=
  ⟨removesAbsent_iff gSelfMac table p io nodes, rfl⟩

/-- So it is whenever at most twenty nodes are absent. -/
theorem few_absent_removed (gSelfMac : Mac) (table : List Mac) (p : ℕ) (io : Io)
    (nodes : List NodeInfo)
    (h : (absentOf table (nodes.map NodeInfo.mac)).length ≤ maxMeshSize) :
    RemovesAbsent gSelfMac table nodes io
      (rootDoChildOffline gSelfMac MsgqueueType.nodeRemove.byte (some table) p io nodes) :=
  (removesAbsent_iff gSelfMac table p io nodes).mpr
    ⟨tableOutlives_of_few (by simpa using h), h.trans (by decide)⟩

/-- Twenty-two nodes have left and the one registered behind them stays: its entry in the table,
behind that of the root, is overwritten, and it is removed as well. -/
theorem present_node_removed :
    let stays : NodeInfo := ⟨macOf 10, Bytes.const 16 0⟩
    let left : List NodeInfo := (List.range 22).map fun i =>
      ⟨macOf (UInt8.ofNat (20 + i)), Bytes.const 16 0⟩
    ¬ RemovesAbsent (macOf 2) [macOf 2, macOf 10] (left ++ [stays]) ⟨⟨fun _ => 0, []⟩, []⟩
      (rootDoChildOffline (macOf 2) MsgqueueType.nodeRemove.byte (some [macOf 2, macOf 10]) 0
        ⟨⟨fun _ => 0, []⟩, []⟩ (left ++ [stays])) := by
  intro stays left h
  have hgone := (offlineGone_eq_iff _ _).mpr ((removesAbsent_iff _ _ _ _ _).mp h).1
  revert hgone
  decide

end EspMesh
