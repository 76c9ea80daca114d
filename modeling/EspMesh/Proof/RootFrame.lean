import EspMesh.Model.RootMeshRead

/-! # What the root's functions leave alone

Every function that works in the slot `p` of the shared buffer stores at `p` or behind it. One
lemma a function; the ping is the one activity that has no place here, because its slot is not
the cursor's.
-/

namespace EspMesh
set_option autoImplicit false
open ByteMem Mem

variable {p q : ℕ} {m : Mem} (io : Io)

theorem busHeader_below (type : BusType) (cmd : BusCmd) (h : q ≤ p) :
    SameBelow q m (busHeader p type cmd m) :=
  (((SameBelow.refl q m).fill _ _ h).store _ (by omega)).store _ (by omega)

/-! ## Registration and offline reports -/

theorem registerEntries_below (heap : ℕ → List UInt8) (nodes : List NodeInfo) (i offset : ℕ) :
    SameBelow p m (registerEntries p heap nodes i offset m) := by
  induction nodes generalizing i offset m with
  | nil => exact SameBelow.refl p m
  | cons head next ih =>
    exact (((SameBelow.refl p m).store _ (by omega)).store _ (by omega)).trans (ih _ _)

theorem buildChildRegister_below (self : Mac) (heap : ℕ → List UInt8) (nodes : List NodeInfo) :
    SameBelow p m (buildChildRegister self p heap nodes m) :=
  (((registerEntries_below heap nodes 0 0).store _ (le_refl p)).trans
    (busHeader_below _ _ (by omega))).store _ (by omega)

theorem buildRootRegister_below (self : Mac) : SameBelow p m (buildRootRegister self p m) :=
  (((SameBelow.refl p m).store _ (le_refl p)).trans (busHeader_below _ _ (by omega))).store _
    (by omega)

theorem rootSendRegister_below (self : Mac) (nodes : List NodeInfo) (e : RegisterEnv) :
    SameBelow p io.mem (rootSendRegister self nodes p e io).1.mem := by
  have hroot : SameBelow p io.mem (buildRootRegister self p io.mem) := buildRootRegister_below self
  unfold rootSendRegister
  dsimp only
  split
  · exact hroot
  · split
    · exact hroot.trans (registerEntries_below _ _ _ _)
    · exact hroot.trans (buildChildRegister_below _ _ _)

theorem offlineLoop_below (tableSize : ℕ) (list nodes : List NodeInfo) (rmNum : ℕ) :
    SameBelow p m (offlineLoop p tableSize list nodes rmNum m).1 := by
  induction list generalizing nodes rmNum m with
  | nil => exact SameBelow.refl p m
  | cons head next ih =>
    rw [offlineLoop]
    split
    · exact ((SameBelow.refl p m).store _ (by omega)).trans (ih _ _)
    · exact ih _ _

theorem rootDoChildOffline_below (self : Mac) (u8cmd : UInt8) (table : Option (List Mac))
    (nodes : List NodeInfo) :
    SameBelow p io.mem (rootDoChildOffline self u8cmd table p io nodes).1.mem := by
  unfold rootDoChildOffline
  split
  · exact SameBelow.refl p io.mem
  · cases table with
    | none => exact SameBelow.refl p io.mem
    | some macs =>
      have hloop := ((SameBelow.refl p io.mem).store (a := tableAddr p) (macs.flatMap (·.val))
        (by unfold tableAddr; omega)).trans (offlineLoop_below macs.length nodes nodes 0)
      dsimp only
      split
      · exact hloop
      · exact ((hloop.store _ (le_refl p)).trans (busHeader_below _ _ (by omega))).store _
          (by omega)

/-! ## Commands -/

theorem answer_below (gSockfd : Option ℕ) (build : Mem → Mem)
    (h : SameBelow p io.mem (build io.mem)) :
    SameBelow p io.mem (answer gSockfd p build io).mem := by
  unfold answer
  split
  · exact SameBelow.refl p io.mem
  · exact h

theorem restartLoop_below (self : Mac) (writeOk : ℕ → Bool) (n i errs : ℕ) (found : Bool) :
    SameBelow p io.mem (restartLoop self p writeOk n i errs found io).1.mem := by
  induction n generalizing i errs found io with
  | zero => exact SameBelow.refl p io.mem
  | succ n ih =>
    rw [restartLoop]
    dsimp only
    split
    · exact ih _ _ _ _
    · split
      · exact ih _ _ _ _
      · exact ((SameBelow.refl p io.mem).store _ (by omega)).trans (ih _ _ _ _)

theorem rootDoRestart_below (w : World) (e : CmdEnv) :
    SameBelow p io.mem (rootDoRestart w p e io).mem := by
  have hhead : SameBelow p io.mem (busHeader (p + tNode) .request .restart io.mem) :=
    busHeader_below _ _ (by omega)
  unfold rootDoRestart
  dsimp only
  split
  · exact hhead
  · have hloop := hhead.trans (restartLoop_below
      (io.modify (busHeader (p + tNode) .request .restart)) w.gSelfMac e.mwifiWriteOk
      (((io.modify (busHeader (p + tNode) .request .restart)).mem.byte
        (p + tNode + body)).toNat) 0 0 false)
    -- The answer behind the loop is written into the same slot.
    have hanswer : ∀ (io' : Io) (errs : ℕ), SameBelow p io.mem io'.mem →
        SameBelow p io.mem (if errs = 0 then io' else answer w.gSockfd p (fun m =>
          m.store (p + tNode + u8Type) [BusType.response.byte]
            |>.store (p + tNode + body) [busRestartError]
            |>.store (p + tNode + body + respRestartNumber) [UInt8.ofNat errs]) io').mem := by
      intro io' errs h
      split
      · exact h
      · exact h.trans (answer_below _ _ _ ((((SameBelow.refl p _).store _ (by omega)).store _
          (by omega)).store _ (by omega)))
    split <;> exact hanswer _ _ hloop

theorem picPacket_below (count maxCount dataLen : ℕ) (data : List UInt8) (h : q ≤ p) :
    SameBelow q m (picPacket p count maxCount dataLen data m) :=
  ((((SameBelow.refl q m).store _ h).store _ (by omega)).store _ (by omega)).store _ (by omega)

theorem rootPhotoLoop_below (fb : CameraFb) (maxCount : ℕ) (sendOk : ℕ → Bool)
    (n count size : ℕ) :
    SameBelow p io.mem (rootPhotoLoop fb p maxCount sendOk n count size io).1.mem := by
  induction n generalizing count size io with
  | zero => exact SameBelow.refl p io.mem
  | succ n ih =>
    have hpic : SameBelow p io.mem (picPacket (p + tNode) count maxCount packetBodyLen
        (fb.slice (packetBodyLen * (count - 1)) packetBodyLen) io.mem) :=
      picPacket_below _ _ _ _ (by omega)
    rw [rootPhotoLoop]
    split
    · exact hpic.trans (ih _ _ _)
    · exact hpic

theorem rootSendPhoto_below (w : World) (e : CmdEnv) :
    SameBelow p io.mem (rootSendPhoto w p e io).mem := by
  unfold rootSendPhoto
  split
  · exact SameBelow.refl p io.mem
  · exact SameBelow.refl p io.mem
  · next fd fb _ _ =>
    have hloop := ((SameBelow.refl p io.mem).store w.gSelfMac.val (le_refl p)).trans
      (rootPhotoLoop_below (io.modify fun m => m.store p w.gSelfMac.val) fb
        (picMaxCount fb.len) e.sendOk (picMaxCount fb.len - 1) 1 fb.len)
    dsimp only
    split
    · exact hloop
    · exact hloop.trans (picPacket_below _ _ _ _ (by omega))

theorem rootDoOta_below (ip : List UInt8) (e : DoOtaEnv) (o : OtaShared) :
    SameBelow p io.mem (rootDoOta ip p e io o).1.mem := by
  have hhead : SameBelow p io.mem ((io.mem.fill (p + tNode) 0xff mwifiAddrLen).store
      (p + tNode + u8Type) [BusType.response.byte]) :=
    ((SameBelow.refl p io.mem).fill _ _ (by omega)).store _ (by omega)
  unfold rootDoOta
  split
  · exact SameBelow.refl p io.mem
  · dsimp only
    split
    · exact (hhead.store _ (by omega)).store _ (by omega)
    · split <;> exact hhead

theorem byteAnswer_below (cmd : BusCmd) (value : UInt8) :
    SameBelow p m (byteAnswer p cmd value m) :=
  ((SameBelow.refl p m).store _ (by omega)).store _ (by omega)

theorem doProcessDataFromTcpserOrRoot_below (w : World) (e : CmdEnv) :
    SameBelow p io.mem (doProcessDataFromTcpserOrRoot w p e io).1.mem := by
  unfold doProcessDataFromTcpserOrRoot
  dsimp only
  split
  · split
    · exact rootDoOta_below _ _ _ _
    · exact rootDoRestart_below _ _ _
    · exact rootSendPhoto_below _ _ _
    · exact answer_below _ _ _ (byteAnswer_below _ _)
    · exact answer_below _ _ _ (byteAnswer_below _ _)
    · exact answer_below (io.emit _) _ _ (byteAnswer_below _ _)
    · exact SameBelow.refl p io.mem
  · exact SameBelow.refl p io.mem

/-! ## Packets of a node -/

theorem rootDoProcessRegister_below (w : World) (which : Mac) (mallocOk : Bool) :
    SameBelow p io.mem (rootDoProcessRegister w which p mallocOk io).1.mem := by
  have hhead : SameBelow p io.mem (busHeader (p + tNode) .request .nodeRegister io.mem) :=
    busHeader_below _ _ (by omega)
  exact hhead.trans (answer_below (io.modify (busHeader (p + tNode) .request .nodeRegister))
    _ _ ((SameBelow.refl p _).store _ (le_refl p)))

theorem doProcessDataFromNode_below (w : World) (which : Mac) (e : CmdEnv) :
    SameBelow p io.mem (doProcessDataFromNode w which p e io).1.mem := by
  have hanswer := answer_below io w.gSockfd (fun m => m.store p which.val)
    ((SameBelow.refl p _).store _ (le_refl p))
  unfold doProcessDataFromNode
  dsimp only
  split
  · split
    · exact rootDoProcessRegister_below _ _ _ _
    · exact SameBelow.refl p io.mem
  · split
    · split <;> first | exact hanswer | exact SameBelow.refl p io.mem
    · exact SameBelow.refl p io.mem

end EspMesh
