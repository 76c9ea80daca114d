import EspMesh.Model.NodeDevHeap

/-! # The registry as an ordered map

The list in memory first: on the heap the functions do what `Model.NodeDevList` says of a list of
entries. The list is then a map in order of insertion, and the log of the calls says what is in
it.
-/

namespace EspMesh
set_option autoImplicit false
open ByteMem LinkedCells OrderedMap

/-! ## The functions on lists -/

section Lists
variable {pAddr : Mac} {xs ys nodes : List NodeInfo} {n : NodeInfo}

theorem addWalk_absent (h : ∀ m ∈ nodes, m.mac ≠ pAddr) (mallocOk : Bool) (pVersion : Bytes 16) :
    addWalk mallocOk pAddr pVersion nodes =
      if mallocOk then (nodes ++ [⟨pAddr, pVersion⟩], 0) else (nodes, -1) := by
  induction nodes with
  | nil => rfl
  | cons m nodes ih =>
    rw [List.forall_mem_cons] at h
    rw [addWalk, if_neg h.1, ih h.2]
    cases mallocOk <;> rfl

theorem addWalk_found (h : ∀ m ∈ xs, m.mac ≠ pAddr) (hn : n.mac = pAddr) (mallocOk : Bool)
    (pVersion : Bytes 16) :
    addWalk mallocOk pAddr pVersion (xs ++ n :: ys) = (xs ++ ⟨n.mac, pVersion⟩ :: ys, 0) := by
  induction xs with
  | nil => rw [List.nil_append, addWalk, if_pos hn, List.nil_append]
  | cons m xs ih =>
    rw [List.forall_mem_cons] at h
    rw [List.cons_append, addWalk, if_neg h.1, ih h.2, List.cons_append]

theorem addNewnode_eq_addWalk (h : nodes ≠ []) (mallocOk : Bool) (pVersion : Bytes 16) :
    addNewnodeToNodedevList mallocOk pAddr pVersion nodes =
      addWalk mallocOk pAddr pVersion nodes := by
  cases nodes with
  | nil => exact absurd rfl h
  | cons m nodes => rfl

theorem delNode_absent (h : ∀ m ∈ nodes, m.mac ≠ pAddr) :
    delNodeFromNodedevList pAddr nodes = nodes := by
  induction nodes with
  | nil => rfl
  | cons m nodes ih =>
    rw [List.forall_mem_cons] at h
    rw [delNodeFromNodedevList, if_neg h.1, ih h.2]

theorem delNode_found (h : ∀ m ∈ xs, m.mac ≠ pAddr) (hn : n.mac = pAddr) :
    delNodeFromNodedevList pAddr (xs ++ n :: ys) = xs ++ ys := by
  induction xs with
  | nil => rw [List.nil_append, delNodeFromNodedevList, if_pos hn, List.nil_append]
  | cons m xs ih =>
    rw [List.forall_mem_cons] at h
    rw [List.cons_append, delNodeFromNodedevList, if_neg h.1, ih h.2, List.cons_append]

end Lists

/-! ## The list in memory -/

/-- From `g_node_info_ptr` the cells lead to NULL, each at an address of its own. -/
def HoldsList (r : Registry) (nodes : List NodeInfo) : Prop :=
  ∃ cells, Segment r.heap r.gNodeInfoPtr cells none ∧ Apart cells ∧ cells.map Prod.snd = nodes

theorem holdsList_empty : HoldsList .empty [] := ⟨[], rfl, List.nodup_nil, rfl⟩

theorem hasMac_false {pAddr : Mac} {cells : List (ℕ × NodeInfo)}
    (h : ∀ x ∈ cells, hasMac pAddr x.2 = false) :
    ∀ n ∈ cells.map Prod.snd, n.mac ≠ pAddr := by
  rw [List.forall_mem_map]
  exact fun x hx => of_decide_eq_false (h x hx)

section Memory
variable {r : Registry} {nodes : List NodeInfo} {fuel : ℕ}

/-- The function in memory and the function on the list do the same. -/
def AddsAs (fuel : ℕ) (malloc : Malloc) (pAddr : Mac) (pVersion : Bytes 16) (r : Registry)
    (nodes : List NodeInfo) : Prop :=
  ∃ r' nodes' ret, r.addNewnodeToNodedevList fuel malloc pAddr (some pVersion) = some (r', ret) ∧
    HoldsList r' nodes' ∧ (ret ≠ 0 → r' = r) ∧
    addNewnodeToNodedevList (malloc.result r.heap).isSome pAddr pVersion nodes = (nodes', ret)

variable {heap : Heap NodeInfo} {head : ℕ} {pAddr : Mac}

theorem addsAs_empty (malloc : Malloc) (pVersion : Bytes 16) :
    AddsAs fuel malloc pAddr pVersion ⟨none, heap⟩ [] := by
  cases hmalloc : malloc.result heap with
  | none =>
    refine ⟨⟨none, heap⟩, [], 12, ?_, ⟨[], rfl, List.nodup_nil, rfl⟩, fun _ => rfl, ?_⟩
    · simp only [Registry.addNewnodeToNodedevList, hmalloc]
    · rw [hmalloc]
      rfl
  | some new =>
    refine ⟨⟨some new, heap.alloc new ⟨none, ⟨pAddr, pVersion⟩⟩⟩, [⟨pAddr, pVersion⟩], 0, ?_,
      ⟨[(new, ⟨pAddr, pVersion⟩)], ⟨rfl, none, heap.alloc_self _ _, rfl⟩,
        List.nodup_singleton _, rfl⟩, fun hret => absurd rfl hret, ?_⟩
    · simp only [Registry.addNewnodeToNodedevList, hmalloc, Option.getD_some]
    · rw [hmalloc]
      rfl

theorem addsAs_absent {before : List (ℕ × NodeInfo)} {last : ℕ × NodeInfo}
    (hseg : Segment heap (some head) (before ++ [last]) none) (hapart : Apart (before ++ [last]))
    (hfuel : (before ++ [last]).length < fuel)
    (hnone : ∀ x ∈ before ++ [last], hasMac pAddr x.2 = false) (malloc : Malloc)
    (pVersion : Bytes 16) :
    AddsAs fuel malloc pAddr pVersion ⟨some head, heap⟩ ((before ++ [last]).map Prod.snd) := by
  have hseek := seek_end hseg hnone (some head) hfuel
  rw [lastOf_snoc] at hseek
  unfold AddsAs
  rw [addNewnode_eq_addWalk (by simp), addWalk_absent (hasMac_false hnone)]
  dsimp only
  cases hmalloc : malloc.result heap with
  | none =>
    refine ⟨⟨some head, heap⟩, _, -1, ?_, ⟨_, hseg, hapart, rfl⟩, fun _ => rfl, rfl⟩
    simp only [Registry.addNewnodeToNodedevList, hseek, hmalloc]
  | some new =>
    obtain ⟨heap', hmod, hseg', hapart'⟩ :=
      hseg.snoc hapart (malloc.fresh heap new hmalloc) ⟨pAddr, pVersion⟩
    refine ⟨⟨some head, heap'⟩, _, 0, ?_, ⟨_, hseg', hapart', rfl⟩,
      fun hret => absurd rfl hret, ?_⟩
    · simp only [Registry.addNewnodeToNodedevList, hseek, hmalloc, hmod, Option.map_some]
    · have hlist : (before ++ [last] ++ [(new, NodeInfo.mk pAddr pVersion)]).map Prod.snd =
          (before ++ [last]).map Prod.snd ++ [⟨pAddr, pVersion⟩] := List.map_append
      rw [hlist]
      rfl

theorem addsAs_found {xs ys : List (ℕ × NodeInfo)} {a : ℕ} {n : NodeInfo}
    (hseg : Segment heap (some head) (xs ++ (a, n) :: ys) none)
    (hapart : Apart (xs ++ (a, n) :: ys)) (hfuel : (xs ++ (a, n) :: ys).length < fuel)
    (hxs : ∀ x ∈ xs, hasMac pAddr x.2 = false) (hn : hasMac pAddr n = true) (malloc : Malloc)
    (pVersion : Bytes 16) :
    AddsAs fuel malloc pAddr pVersion ⟨some head, heap⟩ ((xs ++ (a, n) :: ys).map Prod.snd) := by
  have hlen : xs.length < fuel := by
    rw [List.length_append] at hfuel
    omega
  have hseek := seek_found hseg hxs hn (some head) hlen
  obtain ⟨heap', hmod, hseg', hapart'⟩ :=
    hseg.setVal hapart fun n => { n with version := pVersion }
  refine ⟨⟨some head, heap'⟩, _, 0, ?_, ⟨_, hseg', hapart', rfl⟩,
    fun hret => absurd rfl hret, ?_⟩
  · simp only [Registry.addNewnodeToNodedevList, hseek, hmod, Option.map_some]
  · rw [addNewnode_eq_addWalk (by simp), List.map_append, List.map_cons,
      addWalk_found (hasMac_false hxs) (of_decide_eq_true hn), List.map_append, List.map_cons]

theorem HoldsList.add (h : HoldsList r nodes) (hfuel : nodes.length < fuel) (malloc : Malloc)
    (pAddr : Mac) (pVersion : Bytes 16) : AddsAs fuel malloc pAddr pVersion r nodes := by
  obtain ⟨cells, hseg, hapart, rfl⟩ := h
  rw [List.length_map] at hfuel
  obtain ⟨ptr, heap⟩ := r
  dsimp only at hseg
  cases ptr with
  | none =>
    obtain rfl := hseg.of_null
    exact addsAs_empty malloc pVersion
  | some head =>
    rcases List.eq_nil_or_concat cells with rfl | ⟨before, last, rfl⟩
    · cases hseg
    rw [List.concat_eq_append] at hseg hapart hfuel ⊢
    rcases first_found (hasMac pAddr) (before ++ [last]) with
      hnone | ⟨xs, a, n, ys, hcells, hxs, hn⟩
    · exact addsAs_absent hseg hapart hfuel hnone malloc pVersion
    · rw [hcells] at hseg hapart hfuel ⊢
      exact addsAs_found hseg hapart hfuel hxs hn malloc pVersion

theorem HoldsList.del (h : HoldsList r nodes) (hfuel : nodes.length < fuel) (pAddr : Mac) :
    ∃ r', r.delNodeFromNodedevList fuel pAddr = some r' ∧
      HoldsList r' (delNodeFromNodedevList pAddr nodes) := by
  obtain ⟨cells, hseg, hapart, rfl⟩ := h
  rw [List.length_map] at hfuel
  rcases first_found (hasMac pAddr) cells with hnone | ⟨xs, b, n, ys, rfl, hxs, hn⟩
  · rw [delNode_absent (hasMac_false hnone)]
    refine ⟨r, ?_, cells, hseg, hapart, rfl⟩
    simp only [Registry.delNodeFromNodedevList, seek_end hseg hnone none hfuel]
  · have hlen : xs.length < fuel := by
      rw [List.length_append] at hfuel
      omega
    have hseek := seek_found hseg hxs hn none hlen
    have hlist : delNodeFromNodedevList pAddr ((xs ++ (b, n) :: ys).map Prod.snd) =
        (xs ++ ys).map Prod.snd := by
      rw [List.map_append, List.map_cons, delNode_found (hasMac_false hxs) (of_decide_eq_true hn),
        List.map_append]
    rw [hlist]
    rcases List.eq_nil_or_concat xs with rfl | ⟨xs, ⟨a, m⟩, rfl⟩
    · -- The head goes.
      obtain ⟨q, hcell, hseg', hapart'⟩ := hseg.unlinkHead hapart
      refine ⟨⟨q, r.heap.free b⟩, ?_, ys, hseg', hapart', rfl⟩
      simp only [Registry.delNodeFromNodedevList, hseek, lastOf, hcell, Option.map_some]
    · rw [List.concat_eq_append] at hseek hseg hapart ⊢
      rw [lastOf_snoc] at hseek
      rw [List.append_assoc, List.singleton_append] at hseg hapart ⊢
      obtain ⟨q, heap', hcell, hmod, hseg', hapart'⟩ := hseg.unlink hapart
      refine ⟨⟨r.gNodeInfoPtr, heap'.free b⟩, ?_, _, hseg', hapart', rfl⟩
      simp only [Registry.delNodeFromNodedevList, hseek, hcell, hmod, Option.bind_eq_bind,
        Option.bind_some, Option.pure_def]

theorem HoldsList.check (h : HoldsList r nodes) (hfuel : nodes.length < fuel) (pnodeaddr : Mac) :
    r.checkNodeIsExist fuel pnodeaddr = some (checkNodeIsExist pnodeaddr nodes) := by
  obtain ⟨cells, hseg, hapart, rfl⟩ := h
  rw [List.length_map] at hfuel
  rcases first_found (hasMac pnodeaddr) cells with hnone | ⟨xs, b, n, ys, rfl, hxs, hn⟩
  · have habsent : checkNodeIsExist pnodeaddr (cells.map Prod.snd) = false := by
      rw [Bool.eq_false_iff, ne_eq, checkNodeIsExist_iff]
      intro hmem
      obtain ⟨n, hn, hmac⟩ := List.mem_map.mp hmem
      exact hasMac_false hnone n hn hmac
    simp only [Registry.checkNodeIsExist, seek_end hseg hnone none hfuel, habsent]
    rfl
  · have hlen : xs.length < fuel := by
      rw [List.length_append] at hfuel
      omega
    have hpresent : checkNodeIsExist pnodeaddr ((xs ++ (b, n) :: ys).map Prod.snd) = true := by
      rw [checkNodeIsExist_iff, List.map_append, List.map_append, List.map_cons, List.map_cons,
        show n.mac = pnodeaddr from of_decide_eq_true hn]
      exact List.mem_append_right _ (List.mem_cons_self ..)
    simp only [Registry.checkNodeIsExist, seek_found hseg hxs hn none hlen, hpresent]
    rfl

end Memory

/-! ## The map -/

def NodeInfo.entry (n : NodeInfo) : Mac × Bytes 16 := (n.mac, n.version)

theorem map_entry_fst (nodes : List NodeInfo) :
    (nodes.map NodeInfo.entry).map Prod.fst = nodes.map NodeInfo.mac := by
  rw [List.map_map]
  rfl

theorem addWalk_put (mallocOk : Bool) (pAddr : Mac) (pVersion : Bytes 16)
    (nodes : List NodeInfo) :
    (addWalk mallocOk pAddr pVersion nodes).2 = 0 ∧
        (addWalk mallocOk pAddr pVersion nodes).1.map NodeInfo.entry =
          put pAddr pVersion (nodes.map NodeInfo.entry) ∨
      (addWalk mallocOk pAddr pVersion nodes).2 = -1 ∧
        (addWalk mallocOk pAddr pVersion nodes).1 = nodes ∧ pAddr ∉ nodes.map NodeInfo.mac := by
  induction nodes with
  | nil => cases mallocOk <;> simp [addWalk, put, NodeInfo.entry]
  | cons n nodes ih =>
    rw [addWalk, List.map_cons, put]
    by_cases hn : n.mac = pAddr
    · rw [if_pos hn, if_pos (show n.entry.1 = pAddr from hn)]
      exact .inl ⟨rfl, by rw [List.map_cons, NodeInfo.entry, hn]⟩
    · rw [if_neg hn, if_neg (show n.entry.1 ≠ pAddr from hn)]
      refine ih.imp (fun h => ⟨h.1, ?_⟩) fun h => ⟨h.1, ?_, ?_⟩
      · rw [List.map_cons, h.2]
      · rw [h.2.1]
      · rw [List.map_cons, List.mem_cons, not_or]
        exact ⟨Ne.symm hn, h.2.2⟩

theorem addNewnode_put (mallocOk : Bool) (pAddr : Mac) (pVersion : Bytes 16)
    (nodes : List NodeInfo) :
    (addNewnodeToNodedevList mallocOk pAddr pVersion nodes).2 = 0 ∧
        (addNewnodeToNodedevList mallocOk pAddr pVersion nodes).1.map NodeInfo.entry =
          put pAddr pVersion (nodes.map NodeInfo.entry) ∨
      (addNewnodeToNodedevList mallocOk pAddr pVersion nodes).2 ≠ 0 ∧
        (addNewnodeToNodedevList mallocOk pAddr pVersion nodes).1 = nodes ∧
        pAddr ∉ nodes.map NodeInfo.mac := by
  cases nodes with
  | nil => cases mallocOk <;> simp [addNewnodeToNodedevList, put, NodeInfo.entry]
  | cons n nodes =>
    rw [addNewnodeToNodedevList]
    exact (addWalk_put mallocOk pAddr pVersion (n :: nodes)).imp_right fun h =>
      ⟨by rw [h.1]; decide, h.2⟩

theorem addWalk_succeeds (mallocOk : Bool) (pAddr : Mac) (pVersion : Bytes 16)
    (nodes : List NodeInfo) :
    (addWalk mallocOk pAddr pVersion nodes).2 = 0 ↔
      mallocOk = true ∨ pAddr ∈ nodes.map NodeInfo.mac := by
  induction nodes with
  | nil => cases mallocOk <;> simp [addWalk]
  | cons n nodes ih =>
    rw [addWalk, List.map_cons, List.mem_cons]
    by_cases hn : n.mac = pAddr
    · rw [if_pos hn]
      exact iff_of_true rfl (.inr (.inl hn.symm))
    · rw [if_neg hn, or_iff_right (Ne.symm hn)]
      exact ih

/-- An entry is there to be changed, or there is memory for one. -/
theorem addNewnode_succeeds (mallocOk : Bool) (pAddr : Mac) (pVersion : Bytes 16)
    (nodes : List NodeInfo) :
    (addNewnodeToNodedevList mallocOk pAddr pVersion nodes).2 = 0 ↔
      mallocOk = true ∨ pAddr ∈ nodes.map NodeInfo.mac := by
  cases nodes with
  | nil => cases mallocOk <;> simp [addNewnodeToNodedevList]
  | cons n nodes =>
    rw [addNewnodeToNodedevList]
    exact addWalk_succeeds mallocOk pAddr pVersion (n :: nodes)

theorem delNode_drop (pAddr : Mac) (nodes : List NodeInfo) :
    (delNodeFromNodedevList pAddr nodes).map NodeInfo.entry =
      drop pAddr (nodes.map NodeInfo.entry) := by
  induction nodes with
  | nil => rfl
  | cons n nodes ih =>
    rw [delNodeFromNodedevList, List.map_cons, drop]
    by_cases hn : n.mac = pAddr
    · rw [if_pos hn, if_pos (show n.entry.1 = pAddr from hn)]
    · rw [if_neg hn, if_neg (show n.entry.1 ≠ pAddr from hn), List.map_cons, ih]

/-! ## Calls -/

/-- The list in memory, and the map it is. -/
structure RegistryAt (r : Registry) (nodes : List NodeInfo)
    (log : List (Change Mac (Bytes 16))) : Prop where
  list : HoldsList r nodes
  map : Records (nodes.map NodeInfo.entry) log

theorem call_registryAt {r : Registry} {nodes : List NodeInfo}
    {log : List (Change Mac (Bytes 16))} (h : RegistryAt r nodes log) {fuel : ℕ}
    (hfuel : nodes.length < fuel) (c : RegistryCall) :
    ∃ r' ret nodes', r.call fuel c = some (r', ret) ∧
      RegistryAt r' nodes' (log ++ (c.change ret).toList) ∧
      nodes'.length ≤ nodes.length + 1 := by
  cases c with
  | add malloc pAddr pVersion =>
    obtain ⟨r', nodes', ret, hadd, hlist, hsame, hout⟩ := h.list.add hfuel malloc pAddr pVersion
    refine ⟨r', .int ret, nodes', by rw [Registry.call, hadd, Option.map_some], ?_⟩
    have hput := addNewnode_put (malloc.result r.heap).isSome pAddr pVersion nodes
    rw [hout] at hput
    rcases hput with ⟨hret, hentries⟩ | ⟨hret, hnodes, -⟩
    · dsimp only at hret hentries
      rw [hret]
      have hmap := h.map.put pAddr pVersion
      rw [← hentries] at hmap
      refine ⟨⟨hlist, hmap⟩, ?_⟩
      have hlen := put_length_le pAddr pVersion (nodes.map NodeInfo.entry)
      rwa [← hentries, List.length_map, List.length_map] at hlen
    · dsimp only at hret hnodes
      rw [hnodes] at hlist
      have hnone : (RegistryCall.add malloc pAddr pVersion).change (.int ret) = none := by
        unfold RegistryCall.change
        split
        · next heq => injection heq with heq; exact absurd heq hret
        · next heq => cases heq
        · rfl
      rw [hnone, Option.toList_none, List.append_nil, hnodes]
      exact ⟨⟨hlist, h.map⟩, Nat.le_succ _⟩
  | del pAddr =>
    obtain ⟨r', hdel, hlist⟩ := h.list.del hfuel pAddr
    refine ⟨r', .void, _, by rw [Registry.call, hdel, Option.map_some], ⟨hlist, ?_⟩, ?_⟩
    · rw [delNode_drop]
      exact h.map.drop pAddr
    · have hlen := drop_length_le pAddr (nodes.map NodeInfo.entry)
      rw [← delNode_drop, List.length_map, List.length_map] at hlen
      exact hlen.trans (Nat.le_succ _)
  | check pnodeaddr =>
    have hcheck := h.list.check hfuel pnodeaddr
    refine ⟨r, .bool (checkNodeIsExist pnodeaddr nodes), nodes,
      by rw [Registry.call, hcheck, Option.map_some], ?_, Nat.le_succ _⟩
    rw [show RegistryCall.change (.check pnodeaddr) _ = none from rfl, Option.toList_none,
      List.append_nil]
    exact h

theorem changes_cons (c : RegistryCall) (cs : List RegistryCall) (ret : Returned)
    (rets : List Returned) :
    changes (c :: cs) (ret :: rets) = (c.change ret).toList ++ changes cs rets := by
  rw [changes, List.zip_cons_cons, List.filterMap_cons]
  cases c.change ret <;> rfl

theorem calls_registryAt (cs : List RegistryCall) {r : Registry} {nodes : List NodeInfo}
    {log : List (Change Mac (Bytes 16))} (h : RegistryAt r nodes log) {fuel : ℕ}
    (hfuel : nodes.length + cs.length < fuel) :
    ∃ r' rets nodes', r.calls fuel cs = some (r', rets) ∧
      RegistryAt r' nodes' (log ++ changes cs rets) ∧
      nodes'.length ≤ nodes.length + cs.length := by
  induction cs generalizing r nodes log with
  | nil =>
    refine ⟨r, [], nodes, rfl, ?_, Nat.le_refl _⟩
    rw [show changes [] [] = [] from rfl, List.append_nil]
    exact h
  | cons c cs ih =>
    rw [List.length_cons] at hfuel ⊢
    have hroom : nodes.length < fuel := by omega
    obtain ⟨r₁, ret, nodes₁, hcall, hone, hlen₁⟩ := call_registryAt h hroom c
    obtain ⟨r₂, rets, nodes₂, hcalls, hall, hlen₂⟩ := ih hone (by omega)
    refine ⟨r₂, ret :: rets, nodes₂, ?_, ?_, by omega⟩
    · simp only [Registry.calls, hcall, hcalls, Option.bind_eq_bind, Option.bind_some,
        Option.pure_def]
    · rw [changes_cons, ← List.append_assoc]
      exact hall

/-- What the registry is for, after calls that made these changes. -/
structure IsOrderedMap (fuel : ℕ) (r : Registry) (log : List (Change Mac (Bytes 16))) :
    Prop where
  list : ∃ nodes, HoldsList r nodes ∧ (nodes.map NodeInfo.mac).Nodup ∧
    (nodes.map NodeInfo.mac).Pairwise (InsertedBefore log) ∧
    ∀ n ∈ nodes, LastPut n.mac n.version log
  exist : ∀ pnodeaddr, ∃ b, r.checkNodeIsExist fuel pnodeaddr = some b ∧
    (b = true ↔ Present pnodeaddr log)
  failed : ∀ malloc pAddr pVersion, ∃ r' ret,
    r.addNewnodeToNodedevList fuel malloc pAddr (some pVersion) = some (r', ret) ∧
      (ret ≠ 0 → r' = r)
  succeeds : ∀ malloc pAddr pVersion, ∃ r' ret,
    r.addNewnodeToNodedevList fuel malloc pAddr (some pVersion) = some (r', ret) ∧
      (ret = 0 ↔ (malloc.result r.heap).isSome = true ∨ Present pAddr log)

theorem RegistryAt.isOrderedMap {r : Registry} {nodes : List NodeInfo}
    {log : List (Change Mac (Bytes 16))} (h : RegistryAt r nodes log) {fuel : ℕ}
    (hfuel : nodes.length < fuel) : IsOrderedMap fuel r log where
  list := by
    have hdistinct := h.map.distinct
    have horder := h.map.order
    rw [map_entry_fst] at hdistinct horder
    exact ⟨nodes, h.list, hdistinct, horder,
      fun n hn => (h.map.lookup n.mac n.version).mp (List.mem_map_of_mem hn)⟩
  exist := fun pnodeaddr => by
    refine ⟨_, h.list.check hfuel pnodeaddr, ?_⟩
    rw [checkNodeIsExist_iff, ← map_entry_fst, h.map.mem_iff]
  failed := fun malloc pAddr pVersion => by
    obtain ⟨r', -, ret, hadd, -, hsame, -⟩ := h.list.add hfuel malloc pAddr pVersion
    exact ⟨r', ret, hadd, hsame⟩
  succeeds := fun malloc pAddr pVersion => by
    obtain ⟨r', nodes', ret, hadd, -, -, hout⟩ := h.list.add hfuel malloc pAddr pVersion
    have hret := addNewnode_succeeds (malloc.result r.heap).isSome pAddr pVersion nodes
    rw [hout, ← map_entry_fst, h.map.mem_iff] at hret
    exact ⟨r', ret, hadd, hret⟩

/-- **The registry.** Any sequence of calls runs through, the loops taking no more turns than
there were calls, and leaves an ordered map of what was added and not deleted since. -/
theorem registry_is_ordered_map (fuel : ℕ) (cs : List RegistryCall) (hfuel : cs.length < fuel) :
    ∃ r rets, Registry.empty.calls fuel cs = some (r, rets) ∧
      IsOrderedMap fuel r (changes cs rets) := by
  have hempty : RegistryAt .empty [] [] := ⟨holdsList_empty, records_nil⟩
  obtain ⟨r, rets, nodes, hcalls, hat, hlen⟩ :=
    calls_registryAt cs hempty (by rwa [List.length_nil, Nat.zero_add])
  rw [List.nil_append] at hat
  rw [List.length_nil, Nat.zero_add] at hlen
  exact ⟨r, rets, hcalls, hat.isOrderedMap (hlen.trans_lt hfuel)⟩

/-- Memory for two entries. -/
def twoCells : Malloc where
  result heap :=
    if (heap 1).isNone then some 1 else if (heap 2).isNone then some 2 else none
  fresh heap a h := by
    split at h
    · next h1 =>
      injection h with h
      rw [← h]
      exact Option.isNone_iff_eq_none.mp h1
    · split at h
      · next h2 =>
        injection h with h
        rw [← h]
        exact Option.isNone_iff_eq_none.mp h2
      · cases h
  garbage := ⟨macOf 0, Bytes.const 16 0⟩

/-- Two nodes, a new version of the first, no memory for a third, and the first gone. -/
def fiveCalls : List RegistryCall :=
  [.add twoCells (macOf 1) (Bytes.const 16 1), .add twoCells (macOf 2) (Bytes.const 16 2),
    .add twoCells (macOf 1) (Bytes.const 16 3), .add twoCells (macOf 3) (Bytes.const 16 1),
    .del (macOf 1)]

theorem registry_is_ordered_map_five :
    5 < 6 ∧ ∃ r rets, Registry.empty.calls 6 fiveCalls = some (r, rets) ∧
      IsOrderedMap 6 r (changes fiveCalls rets) :=
  ⟨by decide, registry_is_ordered_map 6 fiveCalls (by decide)⟩

example : (Registry.empty.calls 6 fiveCalls).map (·.2) =
    some [.int 0, .int 0, .int 0, .int (-1), .void] := by decide

end EspMesh
