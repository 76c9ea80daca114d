import EspMesh.Library.CountedEntries
import EspMesh.Model.OtaTask
import EspMesh.Proof.Distribution

/-! # The packet with the result of an upgrade

The packet is the stores of `ota_task` one behind the other, so its content is read off store by
store. A distribution never reports more devices than it was given; 236 of them fill the packet.
-/

namespace EspMesh
set_option autoImplicit false
set_option maxRecDepth 20000
open ByteMem CountedEntries StepRuns

/-- What the server reads: two lists, each behind its count, at the start of the body. -/
def readOtaResult (packet : List UInt8) : Option UpgradeResult := do
  let (successed, rest) ← readCounted 6 (packet.drop (tNode + body))
  let (unfinished, _) ← readCounted 6 rest
  some ⟨successed, unfinished⟩

def UpgradeResult.num (r : UpgradeResult) : ℕ := r.successed.length + r.unfinished.length

/-! ## The packet, store by store -/

section Packet
variable (gSelfMac : Mac) (r : UpgradeResult)

theorem otaResultPacket_load :
    (otaResultPacket gSelfMac r).load 0 (16 + 6 * r.num) =
      (gSelfMac.val ++ mwifiAddrBroadcast.val ++ [BusType.response.byte, BusCmd.ota.byte]) ++
        countedEntries r.successed ++ countedEntries r.unfinished := by
  have haddr : (((Mem.mk (fun _ => 0) []).fill 0 0 rootPacketLen).store 0 gSelfMac.val).load 0 6 =
      gSelfMac.val := by
    have h := Mem.load_store_self ((Mem.mk (fun _ => 0) []).fill 0 0 rootPacketLen) 0 gSelfMac.val
    rwa [gSelfMac.2] at h
  have hheader := Mem.load_store_next haddr 6 12 (List.replicate 6 0xff) rfl rfl
  have htype := Mem.load_store_next hheader 12 13 [BusType.response.byte] rfl rfl
  have hcmd := Mem.load_store_next htype 13 14 [BusCmd.ota.byte] rfl rfl
  have hsuccessedNum := Mem.load_store_next hcmd 14 15 [UInt8.ofNat r.successed.length] rfl rfl
  have hsuccessed := Mem.load_store_next hsuccessedNum 15 (15 + 6 * r.successed.length)
    (r.successed.flatMap (·.val)) rfl (by rw [flatMap_val_length])
  have hunfinishedNum := Mem.load_store_next hsuccessed (15 + 6 * r.successed.length)
    (16 + 6 * r.successed.length) [UInt8.ofNat r.unfinished.length] (Nat.zero_add _).symm
    (Nat.succ_add 15 _)
  have hunfinished := Mem.load_store_next hunfinishedNum (16 + 6 * r.successed.length)
    (16 + 6 * r.num) (r.unfinished.flatMap (·.val)) (Nat.zero_add _).symm
    (by rw [flatMap_val_length, UpgradeResult.num]; omega)
  refine hunfinished.trans ?_
  simp [countedEntries, mwifiAddrBroadcast, List.replicate]

/-- The last store is the one that can leave the allocation. -/
theorem otaResultPacket_inside :
    Mem.Inside 0 rootPacketLen (otaResultPacket gSelfMac r) ↔ r.num ≤ 236 := by
  have hnew (hi : ℕ) : Mem.Inside 0 hi (Mem.mk (fun _ => 0) []) :=
    fun _ h => absurd h List.not_mem_nil
  unfold otaResultPacket UpgradeResult.num
  simp only [Mem.inside_store, Mem.inside_fill, flatMap_val_length, gSelfMac.2, hnew, and_true,
    List.length_singleton, rootPacketLen, childPacketLen, mwifiAddrLen, tNode, u8Type, u8Cmd, body]
  omega

theorem readOtaResult_packet (h : r.num ≤ 236) :
    readOtaResult ((otaResultPacket gSelfMac r).load 0 rootPacketLen) = some r := by
  have hlen : rootPacketLen = 16 + 6 * r.num + (rootPacketLen - (16 + 6 * r.num)) := by
    simp only [rootPacketLen, childPacketLen, mwifiAddrLen]
    omega
  have hheader : (gSelfMac.val ++ mwifiAddrBroadcast.val ++
      [BusType.response.byte, BusCmd.ota.byte]).length = tNode + body := by
    simp only [List.length_append, gSelfMac.2, mwifiAddrBroadcast.2]
    rfl
  unfold UpgradeResult.num at h
  rw [readOtaResult, hlen, Mem.load_append, otaResultPacket_load, List.append_assoc,
    List.append_assoc, List.drop_left' hheader]
  rw [readCounted_countedEntries _ _ (by omega)]
  dsimp only [Option.bind_eq_bind, Option.bind_some]
  rw [readCounted_countedEntries _ _ (by omega)]
  rfl

/-- **The packet decodes to the result** and stays in its allocation for up to 236 devices, and
for no more. -/
theorem otaResultPacket_decodes_iff :
    (readOtaResult ((otaResultPacket gSelfMac r).load 0 rootPacketLen) = some r ∧
      Mem.Inside 0 rootPacketLen (otaResultPacket gSelfMac r)) ↔
    r.successed.length + r.unfinished.length ≤ 236 := by
  rw [otaResultPacket_inside]
  exact ⟨fun h => h.2, fun h => ⟨readOtaResult_packet gSelfMac r h, h⟩⟩

end Packet

/-! ## The devices of a distribution -/

section Devices
variable (c : SendCall)

def Send.result (s : Send) : UpgradeResult := ⟨s.successedAddr, s.unfinishedAddr⟩

theorem result_num (s : Send) :
    s.result.num = s.ledger.successed.length + s.ledger.unfinished.length := rfl

/-- A message moves its sender from one list to the other, or takes it from the first. -/
theorem effect_num {q : StatusMessage} {s s' : Send} (h : Effect c q s s') :
    s'.result.num ≤ s.result.num := by
  have herase := List.length_erase_le (a := q.srcAddr) (l := s.unfinishedAddr)
  rw [result_num, result_num]
  cases h with
  | ignored h =>
    rw [h]
    exact le_refl _
  | finished hmem h =>
    have hpos := List.length_pos_of_mem hmem
    rw [h]
    dsimp only [Send.ledger]
    rw [List.length_append, List.length_erase_of_mem hmem, List.length_singleton]
    omega
  | dropped _ h | lost _ h =>
    rw [h]
    exact Nat.add_le_add_left herase _

theorem step_num (s : Send) (e : SendEvent) : (s.step c e).result.num ≤ s.result.num := by
  rcases step_effect c s e with h | ⟨q, -, h⟩
  · rw [result_num, result_num, h]
  · exact effect_num c h

/-- In whatever state a run is, it reports no more devices than it has targets. -/
theorem run_num (progressArray packetData : ℕ → UInt8) (s : Send)
    (hstart : mupgradeFirmwareSend c progressArray packetData = some s) (es : List SendEvent) :
    (run (Send.step c) s es).result.num ≤ c.targets.length := by
  have h0 : s.result.num ≤ c.targets.length := by
    unfold mupgradeFirmwareSend at hstart
    split at hstart
    · rw [← Option.some.inj hstart, UpgradeResult.num, Send.result, List.length_nil, Nat.zero_add]
    · cases hstart
  exact run_invariant (fun s e h => (step_num c s e).trans h) h0 es

/-- A distribution to at most 236 devices is always reported as it went. -/
theorem run_reported (gSelfMac : Mac) (progressArray packetData : ℕ → UInt8) (s : Send)
    (hstart : mupgradeFirmwareSend c progressArray packetData = some s)
    (hfew : c.targets.length ≤ 236) (es : List SendEvent) :
    let r := (run (Send.step c) s es).result
    readOtaResult ((otaResultPacket gSelfMac r).load 0 rootPacketLen) = some r ∧
      Mem.Inside 0 rootPacketLen (otaResultPacket gSelfMac r) := by
  have hnum := (run_num c progressArray packetData s hstart es).trans hfew
  exact ⟨readOtaResult_packet gSelfMac _ hnum, (otaResultPacket_inside gSelfMac _).mpr hnum⟩

end Devices

/-! ## A mesh of 238 devices -/

/-- A broadcast from the root 00:.. to 237 others. -/
def callOfMany : SendCall where
  addrsList := [mwifiAddrBroadcast]
  addrIsEmpty := false
  addrIsAny := false
  addrIsBroadcast := true
  routingTableSize := 238
  routingTable := (List.range 238).map fun k => macOf (UInt8.ofNat k)
  routingTableOk := true
  rootMac := macOf 0
  firmwareFinished := true
  totalSize := 1024
  partition := fun _ => 0
  mdfErrMupgradeBase := 0

def sendOfMany : Send := (mupgradeFirmwareSend callOfMany (fun _ => 0) (fun _ => 0)).get rfl

/-- Nobody answers any of the three requests of a round. -/
def silentRound : List SendEvent :=
  [.next, .receive none, .next, .receive none, .next, .receive none, .next, .receive none,
    .next, .next]

def silentRun : List SendEvent :=
  (List.replicate mupgradeRetryCount silentRound).flatten ++ [.next, .next, .receive none]

/-- All of them are unfinished, and the packet with their addresses is two bytes too long. -/
theorem silent_mesh_overruns :
    let s := run (Send.step callOfMany) sendOfMany silentRun
    s.pc = .returned ∧ s.result.unfinished.length = 237 ∧
    ¬ (readOtaResult ((otaResultPacket (macOf 0) s.result).load 0 rootPacketLen) = some s.result ∧
      Mem.Inside 0 rootPacketLen (otaResultPacket (macOf 0) s.result)) := by
  have hnum : (run (Send.step callOfMany) sendOfMany silentRun).result.num = 237 := by decide
  refine ⟨by decide, by decide, fun h => ?_⟩
  have hle := (otaResultPacket_inside _ _).mp h.2
  omega

end EspMesh
