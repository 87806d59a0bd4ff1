import BluePill.Firmware.PacketEffect

/-! Packets that are answered: what the callback leaves in the IN endpoint and in the device. -/
namespace BluePill
open Lib

/-- The callback around a handler that returns a reply. -/
theorem usbDataOutCallback_ok {packet : List UInt8} {d e : Device} {k : ℕ} {f : Frame}
    (hne : packet ≠ []) (hlen : packet.length ≤ 64) (hk : k ≠ 0)
    (h : dispatchCommand (packet ++ d.usbCmdFrame.val.drop packet.length) packet.length
      d.usbAnsFrame { d with usbCmdFrame := d.usbCmdFrame.receive packet, usbInitialized := true }
        = .ok (k, f, e)) :
    usbDataOutCallback packet d = .ok ({ e with usbAnsFrame := f }.epWritePacket (f.val.take k)) := by
  have hpos : packet.length ≠ 0 := fun h0 => hne (List.length_eq_zero_iff.mp h0)
  rw [← Frame.receive_val _ hlen] at h
  simp only [usbDataOutCallback, List.take_of_length_le hlen, hpos, if_false]
  rw [bind_of_ok h]
  simp only [hk, if_false]
  rfl

/-- A reply stored at the start of the reply buffer is what gets sent. -/
theorem store_zero_ok (f : Frame) (bytes : List UInt8) (h : bytes.length ≤ 64) :
    ∃ g : Frame, f.store 0 bytes = .ok g ∧ g.val = bytes ++ f.val.drop bytes.length := by
  obtain ⟨g, hg, hval⟩ := f.store_ok 0 bytes (by omega)
  exact ⟨g, hg, by simpa using hval⟩

theorem epWritePacket_inEndpoint (d : Device) (reply : List UInt8) :
    (d.epWritePacket reply).inEndpoint = some (d.inEndpoint.getD reply) := by
  unfold Device.epWritePacket
  split
  next r hr => rw [hr, Option.getD_some]
  next hr => rw [hr, Option.getD_none]

theorem dispatchCommand_getState (x y : UInt8) (rest : List UInt8) {rcvSize : ℕ} {outBuf g : Frame}
    {d : Device} (hsize : SubCmdHead.size ≤ rcvSize)
    (hg : outBuf.store 0 [DebugCommand.resetHalt.toByte, 5, d.mon.gHaltState.toByte, 0] = .ok g) :
    dispatchCommand (4 :: 5 :: x :: y :: rest) rcvSize outBuf d = .ok (4, g, d) := by
  have hcmd : DebugCommand.ofByte 4 = some .resetHalt := by decide
  have hsub : ResetHaltCommand.ofByte 5 = some .getState := by decide
  have hbyte : ((4 : UInt8) == DebugCommand.resetHalt.toByte) = true := by decide
  have hvalid : dbgHeadValid SubCmdHead.size (4 :: 5 :: x :: y :: rest) rcvSize .resetHalt =
      .ok true := by
    simp only [dbgHeadValid, not_lt.mpr hsize, if_false, hbyte]
  have hhead : readHead SubCmdHead.decode (4 :: 5 :: x :: y :: rest) = .ok ⟨4, 5⟩ := rfl
  simp only [dispatchCommand, hcmd, resetHaltCommand]
  rw [bind_of_ok hvalid]
  simp only [Bool.not_true, Bool.false_eq_true, if_false]
  rw [bind_of_ok hhead]
  simp only [hsub, if_true]
  rw [bind_of_ok hg]
  rfl

/-- A `GetState` packet is answered with `gHaltState`, unless the last reply still waits, and
leaves the monitor alone. -/
theorem usbDataOutCallback_getState (x y : UInt8) (rest : List UInt8) (d : Device)
    (hlen : rest.length ≤ 60) :
    ∃ e, usbDataOutCallback (4 :: 5 :: x :: y :: rest) d = .ok e ∧ e.mon = d.mon ∧
      e.inEndpoint = some (d.inEndpoint.getD [4, 5, d.mon.gHaltState.toByte, 0]) := by
  set packet := 4 :: 5 :: x :: y :: rest with hpacket
  have hpacketLen : packet.length = rest.length + 4 := rfl
  set e₀ : Device :=
    { d with usbCmdFrame := d.usbCmdFrame.receive packet, usbInitialized := true }
  obtain ⟨g, hg, hval⟩ := store_zero_ok d.usbAnsFrame
    [DebugCommand.resetHalt.toByte, 5, d.mon.gHaltState.toByte, 0] (by simp)
  have hdispatch : dispatchCommand (packet ++ d.usbCmdFrame.val.drop packet.length) packet.length
      d.usbAnsFrame e₀ = .ok (4, g, e₀) :=
    dispatchCommand_getState x y _ (by rw [hpacketLen]; exact Nat.le_add_left _ _) hg
  have hcall := usbDataOutCallback_ok (by simp [hpacket]) (by omega) (by decide) hdispatch
  refine ⟨_, hcall, ?_, ?_⟩
  · exact epWritePacket_mon _ _
  · rw [epWritePacket_inEndpoint, hval]
    rfl

end BluePill
