import EspMesh.Model.MupgradeRoot

/-! # `addrs_remove` with every byte it touches

The function on the packed bytes, with the overlapping `memcpy` done byte by byte from the lowest
address upwards and with a record of the spans of the list that are read. `Proof.AddressRemoval`
joins it to `addrsRemoveBytes`.
-/

namespace EspMesh
set_option autoImplicit false
open ByteMem

/-- What a call leaves. `reads` are the spans (address, length) read from the list, the latest
first; the spans written are those of `mem`. -/
structure AddrsRemoved where
  mem : Mem
  addrsNum : ℕ
  found : Bool
  reads : List (ℕ × ℕ)

/-- The loop from its `i`-th turn, with `n` entries left, at `addrsList`. The count is taken down
inside the test, and what is moved is counted with the new one. -/
def addrsRemoveTurn (addr : Mac) (addrsNum : ℕ) : ℕ → ℕ → ℕ → Mem → List (ℕ × ℕ) → AddrsRemoved
  | 0, _, _, m, reads => ⟨m, addrsNum, false, reads⟩
  | n + 1, i, addrsList, m, reads =>
    -- `memcmp` may look at all six bytes
    let reads := (addrsList, mwifiAddrLen) :: reads
    if m.loadBytes addrsList 6 = addr then
      let num := addrsNum - 1
      if num = 0 then ⟨m, num, true, reads⟩
      else
        let size := (num - i) * mwifiAddrLen
        ⟨m.copyForward addrsList (addrsList + mwifiAddrLen) size, num, true,
          (addrsList + mwifiAddrLen, size) :: reads⟩
    else addrsRemoveTurn addr addrsNum n (i + 1) (addrsList + mwifiAddrLen) m reads

def addrsRemoveAccess (addr : Mac) (addrsList addrsNum : ℕ) (m : Mem) : AddrsRemoved :=
  addrsRemoveTurn addr addrsNum addrsNum 0 addrsList m []

end EspMesh
