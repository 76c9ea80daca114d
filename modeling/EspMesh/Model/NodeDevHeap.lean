import EspMesh.Library.LinkedCells
import EspMesh.Library.OrderedMap
import EspMesh.Model.NodeDevList

/-! # `node_dev_list.c` on the heap

The functions of the registry as the code has them, with `g_node_info_ptr`, cells from `malloc`
and loops that follow `next`. An access through NULL or to memory that is not allocated has no
result, and neither has a loop that needs more than `fuel` turns.
-/

namespace EspMesh
set_option autoImplicit false
open ByteMem LinkedCells OrderedMap

/-- `malloc`: NULL, or an address that is not in use, where memory holds anything. -/
structure Malloc where
  result : Heap NodeInfo → Option ℕ
  fresh : ∀ heap a, result heap = some a → heap a = none
  garbage : NodeInfo

structure Registry where
  gNodeInfoPtr : Option ℕ
  heap : Heap NodeInfo

def Registry.empty : Registry := ⟨none, .empty⟩

/-- `memcmp(cur->mac_addr, pAddr, sizeof(cur->mac_addr)) == 0` -/
def hasMac (pAddr : Mac) (n : NodeInfo) : Bool := decide (n.mac = pAddr)

/-- A `pVersion` of NULL is `none`; `ENOMEM` is 12. -/
def Registry.addNewnodeToNodedevList (fuel : ℕ) (malloc : Malloc) (pAddr : Mac)
    (pVersion : Option (Bytes 16)) (r : Registry) : Option (Registry × ℤ) :=
  match r.gNodeInfoPtr with
  | none =>
    match malloc.result r.heap with
    | none => some (r, 12)
    | some new =>
      let version := pVersion.getD malloc.garbage.version
      some (⟨some new, r.heap.alloc new ⟨none, ⟨pAddr, version⟩⟩⟩, 0)
  | some head =>
    match seek r.heap (hasMac pAddr) fuel (some head) (some head), pVersion with
    | none, _ => none
    | some (_, some _), none => some (r, 0)
    | some (_, some cur), some version =>
      (r.heap.modify cur fun c => { c with val := { c.val with version := version } }).map
        fun heap => ({ r with heap := heap }, 0)
    | some (pre, none), _ =>
      match malloc.result r.heap, pVersion, pre with
      | none, _, _ => some (r, -1)
      -- Unlike above, nothing keeps `memcpy` from a version that is NULL.
      | some _, none, _ => none
      | some _, some _, none => none
      | some new, some version, some pre =>
        ((r.heap.alloc new ⟨none, ⟨pAddr, version⟩⟩).modify pre
          fun c => { c with next := some new }).map fun heap => ({ r with heap := heap }, 0)

def Registry.delNodeFromNodedevList (fuel : ℕ) (pAddr : Mac) (r : Registry) : Option Registry :=
  match seek r.heap (hasMac pAddr) fuel none r.gNodeInfoPtr with
  | none => none
  | some (_, none) => some r
  | some (none, some cur) => (r.heap cur).map fun c => ⟨c.next, r.heap.free cur⟩
  | some (some pre, some cur) => do
    let c ← r.heap cur
    let heap ← r.heap.modify pre fun p => { p with next := c.next }
    return ⟨r.gNodeInfoPtr, heap.free cur⟩

def Registry.checkNodeIsExist (fuel : ℕ) (pnodeaddr : Mac) (r : Registry) : Option Bool :=
  (seek r.heap (hasMac pnodeaddr) fuel none r.gNodeInfoPtr).map fun found => found.2.isSome

/-! ## Sequences of calls -/

inductive RegistryCall
  | add (malloc : Malloc) (pAddr : Mac) (pVersion : Bytes 16)
  | del (pAddr : Mac)
  | check (pnodeaddr : Mac)

inductive Returned
  | int (ret : ℤ)
  | void
  | bool (exist : Bool)
  deriving DecidableEq, Repr

def Registry.call (fuel : ℕ) (r : Registry) : RegistryCall → Option (Registry × Returned)
  | .add malloc pAddr pVersion =>
    (r.addNewnodeToNodedevList fuel malloc pAddr (some pVersion)).map
      fun out => (out.1, .int out.2)
  | .del pAddr => (r.delNodeFromNodedevList fuel pAddr).map fun r => (r, .void)
  | .check pnodeaddr => (r.checkNodeIsExist fuel pnodeaddr).map fun exist => (r, .bool exist)

def Registry.calls (fuel : ℕ) : Registry → List RegistryCall → Option (Registry × List Returned)
  | r, [] => some (r, [])
  | r, c :: cs => do
    let (r, ret) ← r.call fuel c
    let (r, rets) ← Registry.calls fuel r cs
    return (r, ret :: rets)

/-- What a call does to the map: an `add` that succeeds puts, a `del` drops. -/
def RegistryCall.change : RegistryCall → Returned → Option (Change Mac (Bytes 16))
  | .add _ pAddr pVersion, .int 0 => some (.put pAddr pVersion)
  | .del pAddr, _ => some (.drop pAddr)
  | _, _ => none

def changes (cs : List RegistryCall) (rets : List Returned) : List (Change Mac (Bytes 16)) :=
  (cs.zip rets).filterMap fun c => c.1.change c.2

end EspMesh
