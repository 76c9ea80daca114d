import EspMesh.Model.Common

/-! # `node_dev_list.c`: the registry of nodes

The linked list is a Lean list in `next` order. Entries are found by their MAC; every function
stops at the first entry with the MAC it looks for.
-/

namespace EspMesh
set_option autoImplicit false
open ByteMem

/-- `node_info_t` without its `next` pointer. -/
structure NodeInfo where
  mac : Mac
  version : Bytes 16
  deriving DecidableEq

def addWalk (mallocOk : Bool) (pAddr : Mac) (pVersion : Bytes 16) :
    List NodeInfo → List NodeInfo × ℤ
  | [] => if mallocOk then ([⟨pAddr, pVersion⟩], 0) else ([], -1)
  | n :: ns =>
    if n.mac = pAddr then (⟨n.mac, pVersion⟩ :: ns, 0)
    else (n :: (addWalk mallocOk pAddr pVersion ns).1, (addWalk mallocOk pAddr pVersion ns).2)

/-- `add_newnode_to_nodedev_list` with a version; `ENOMEM` is 12. -/
def addNewnodeToNodedevList (mallocOk : Bool) (pAddr : Mac) (pVersion : Bytes 16)
    (list : List NodeInfo) : List NodeInfo × ℤ :=
  match list with
  | [] => if mallocOk then ([⟨pAddr, pVersion⟩], 0) else ([], 12)
  | n :: ns => addWalk mallocOk pAddr pVersion (n :: ns)

def delNodeFromNodedevList (pAddr : Mac) : List NodeInfo → List NodeInfo
  | [] => []
  | n :: ns => if n.mac = pAddr then ns else n :: delNodeFromNodedevList pAddr ns

def checkNodeIsExist (pnodeaddr : Mac) : List NodeInfo → Bool
  | [] => false
  | n :: ns => if n.mac = pnodeaddr then true else checkNodeIsExist pnodeaddr ns

theorem checkNodeIsExist_iff (a : Mac) (list : List NodeInfo) :
    checkNodeIsExist a list = true ↔ a ∈ list.map NodeInfo.mac := by
  induction list with
  | nil => simp [checkNodeIsExist]
  | cons n ns ih =>
    rw [checkNodeIsExist, List.map_cons, List.mem_cons]
    by_cases h : n.mac = a
    · simp [h]
    · simp [h, ih, Ne.symm h]

end EspMesh
