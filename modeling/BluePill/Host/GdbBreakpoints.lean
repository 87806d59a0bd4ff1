import BluePill.Host.Breakwatch

/-! `Z` and `z` of `gdb_main.c` down to the comparators of the device, and what GDB is told of
them. -/
namespace BluePill
open Lib

/-- `handle_z_packet`, with the fields of the packet parsed. The empty answer is that of an
unsupported packet. -/
def gdbBreakpoint {σ : Type} (device : SetClear σ) (set : Bool) (type addr len : UInt32)
    (t : List Breakwatch × σ) : Except Fault (GdbReply × List Breakwatch × σ) := do
  let (ret, t) ← if set then targetBreakwatchSet device type addr len t
    else targetBreakwatchClear device type addr len t
  return (if ret < 0 then .e01 else if ret > 0 then .data [] else .ok, t)

/-- The device of the server, behind the link to the firmware. -/
def linkedDevice (behind : ℕ → UInt8) (fuel : ℕ) : SetClear (Host Link) :=
  TargetSTM32F1.breakpointsSetClear firmwareLink (.goesOn behind) fuel

theorem usbDataOutCallback_packet {packet : List UInt8} (d : Device) (p : BreakpointPacket)
    (hbuf : p.inBuf = (d.usbCmdFrame.receive packet).val) (hsize : p.inSize = packet.length)
    (hlen : packet.length ≤ 64) :
    ∃ e reply, usbDataOutCallback packet d = .ok e ∧ e.fpComp = p.apply d.fpComp ∧
      e.inEndpoint = some (d.inEndpoint.getD reply) ∧ reply.length = 4 ∧
      BreakpointHead.decode reply = some p.head := by
  have hpresent := p.present
  have hpos : packet.length ≠ 0 := by
    rw [← hsize]
    simp only [BreakpointHead.size] at hpresent
    omega
  have hc : commandOf p.inBuf = some .breakpoint := by
    match hb : p.inBuf, p.decodes with
    | c :: s :: n₀ :: n₁ :: rest, hdecode =>
      have hcmd : c = p.head.cmd := congrArg BreakpointHead.cmd (Option.some.inj hdecode)
      rw [hcmd, p.cmd]
      exact DebugCommand.ofByte_toByte .breakpoint
  let d₁ : Device := { d with
    usbCmdFrame := d.usbCmdFrame.receive packet
    usbInitialized := true }
  obtain ⟨reply, hcall, hreply⟩ := breakpointCommand_packet p d.usbAnsFrame 64 d₁
  have hdispatch : dispatchCommand p.inBuf p.inSize d.usbAnsFrame d₁ =
      .ok (BreakpointHead.size, reply, p.effect d₁) :=
    (dispatchCommand_eq d.usbAnsFrame d₁ hc).trans hcall
  rw [hbuf, hsize] at hdispatch
  have hfour : (reply.val.take 4).length = 4 := by
    have h64 : reply.val.length = 64 := reply.property
    rw [List.length_take, h64]
    rfl
  refine ⟨{ p.effect d₁ with usbAnsFrame := reply }.epWritePacket (reply.val.take 4),
    reply.val.take 4, ?_, ?_, ?_, hfour, ?_⟩
  · simp only [usbDataOutCallback, List.take_of_length_le hlen, hpos, if_false]
    rw [bind_of_ok hdispatch]
    rfl
  · unfold Device.epWritePacket
    split <;> rfl
  · rw [epWritePacket_inEndpoint]
    rfl
  · have h64 : reply.val.length = 64 := reply.property
    obtain ⟨c, s, n₀, n₁, rest, hrest⟩ := exists_four (show 4 ≤ reply.val.length by omega)
    rw [← hreply, hrest]
    rfl

/-- Every reply has been read. -/
def Link.Collected (l : Link) : Prop := ∀ d, l.device = some d → d.inEndpoint = none

/-- After any exchange no reply is left uncollected. -/
theorem exchange_collected (packet : List UInt8) (l : Link) :
    (exchange firmwareLink packet l).2.Collected := by
  have hread (l : Link) : (firmwareLink.readPacket 64 l).2.Collected := by
    intro e he
    cases hdev : l.device with
    | none =>
      simp only [firmwareLink, hdev] at he
      cases he
    | some d =>
      cases hin : d.inEndpoint with
      | none =>
        simp only [firmwareLink, hdev, hin] at he
        obtain rfl := Option.some.inj he
        exact hin
      | some reply =>
        simp only [firmwareLink, hdev, hin] at he
        obtain rfl := Option.some.inj he
        rfl
  unfold exchange
  simp only
  split_ifs with hsent
  · intro e he
    cases hdev : l.device with
    | none =>
      simp only [firmwareLink, hdev] at he
      cases he
    | some d =>
      refine absurd ?_ hsent
      simp only [firmwareLink, hdev]
      split <;> rfl
  · exact hread _

variable {behind : ℕ → UInt8}

theorem breakpointsPacket_one (behind : ℕ → UInt8) (b : Breakpoint) :
    breakpointsPacket behind [b] true 0 = [0x05, 0x01, 0x01, 0x00] ++ b.encode := by
  have hentry : (List.range 8).map (fun i =>
      (([b].flatMap Breakpoint.encode)[8 * 0 + i]?).getD (behind (8 * 0 + i))) = b.encode := by
    rw [List.flatMap_singleton]
    simp [Breakpoint.encode, toLE, List.range_succ]
  have hcount : sentCount [b] = 1 := rfl
  have hhead : (breakpointHeadFor [b] true).encode = [0x05, 0x01, 0x01, 0x00] := by
    unfold breakpointHeadFor
    rw [hcount]
    decide
  unfold breakpointsPacket
  rw [hhead, hcount, hentry]

/-- The packet for one breakpoint as the firmware finds it in its buffer. -/
def onePacket (f : Frame) (b : Breakpoint) : BreakpointPacket where
  inBuf := (f.receive ([0x05, 0x01, 0x01, 0x00] ++ b.encode)).val
  inSize := 12
  head := ⟨0x05, 0x01, 1⟩
  decodes := by
    rw [f.receive_val (by simp)]
    rfl
  cmd := rfl
  present := by decide
  inside := by
    rw [(f.receive _).property]
    decide

theorem onePacket_addresses (f : Frame) (b : Breakpoint) :
    (onePacket f b).addresses = [b.address] := by
  have hlen : (toLE 4 b.address.toNat).length = 4 := toLE_length _ _
  have hbytes : ((onePacket f b).inBuf.drop 4).take 4 = toLE 4 b.address.toNat := by
    show (((f.receive ([0x05, 0x01, 0x01, 0x00] ++ b.encode)).val).drop 4).take 4 = _
    rw [f.receive_val (by simp)]
    show (b.encode ++ _).take 4 = _
    unfold Breakpoint.encode
    rw [List.append_assoc, List.take_left' hlen]
  show [UInt32.ofNat (ofLE (((onePacket f b).inBuf.drop 4).take 4))] = _
  rw [hbytes, ofLE_toLE_of_lt (by exact b.address.toNat_lt), UInt32.ofNat_toNat]

/-- A device at work sets the address if it can and confirms the entry either way. -/
theorem exchange_one (behind : ℕ → UInt8) {l : Link} {d : Device} (hdev : l.device = some d)
    (hfree : d.inEndpoint = none) (b : Breakpoint) :
    ∃ e, confirmed true (exchange firmwareLink (breakpointsPacket behind [b] true 0) l).1 = some 1 ∧
      (exchange firmwareLink (breakpointsPacket behind [b] true 0) l).2.device = some e ∧
      e.fpComp = setComparator d.fpComp b.address := by
  rw [breakpointsPacket_one]
  have hlen : ([0x05, 0x01, 0x01, 0x00] ++ b.encode).length = 12 := by simp
  obtain ⟨e, reply, hcall, hcomp, hendpoint, hfour, hreply⟩ :=
    usbDataOutCallback_packet d (onePacket d.usbCmdFrame b) rfl hlen.symm (by omega)
  rw [hfree, Option.getD_none] at hendpoint
  have hexchange : exchange firmwareLink ([0x05, 0x01, 0x01, 0x00] ++ b.encode) l =
      (reply, ⟨some { e with inEndpoint := none }, l.sent ++ [[0x05, 0x01, 0x01, 0x00] ++ b.encode],
        l.received ++ [reply]⟩) := by
    unfold exchange firmwareLink
    simp only [hdev, hcall, hendpoint, ne_eq, not_true_eq_false, if_false,
      List.take_of_length_le (show reply.length ≤ 64 by omega)]
  refine ⟨{ e with inEndpoint := none }, ?_, ?_, ?_⟩
  · unfold confirmed
    rw [hexchange, hreply]
    rfl
  · rw [hexchange]
  · show e.fpComp = _
    rw [hcomp]
    show (onePacket d.usbCmdFrame b).addresses.foldl setComparator d.fpComp = _
    rw [onePacket_addresses]
    rfl

theorem exchange_dead {l : Link} (hdev : l.device = none) (b : Breakpoint) :
    exchange firmwareLink (breakpointsPacket behind [b] true 0) l = ([], l) := by
  have hlen : (breakpointsPacket behind [b] true 0).length ≠ 0 := by
    rw [breakpointsPacket_length]
    omega
  unfold exchange firmwareLink
  simp only [hdev]
  rw [if_pos (Ne.symm hlen)]

/-- A `Z` packet is answered `OK`, and its node enters the list, whatever the device did. -/
theorem gdbBreakpoint_one (behind : ℕ → UInt8) (fuel : ℕ) (type addr len : UInt32)
    (t : List Breakwatch × Host Link) (hcollected : t.2.link.Collected) :
    ∃ h', gdbBreakpoint (linkedDevice behind (fuel + 1)) true type addr len t =
        .ok (.ok, ⟨type, addr, len⟩ :: t.1, h') ∧
      h'.link = (exchange firmwareLink (breakpointsPacket behind
        [(Breakwatch.mk type addr len).breakpoint] true 0) t.2.link).2 := by
  obtain ⟨bwList, h⟩ := t
  obtain ⟨out, hround⟩ := breakpointsRound_goesOn firmwareLink
    [(Breakwatch.mk type addr len).breakpoint] true behind h 0
  have hdevice : ∃ n h', linkedDevice behind (fuel + 1)
      [(Breakwatch.mk type addr len).breakpoint] true h = .ok (n, h') ∧
      h'.link = (exchange firmwareLink (breakpointsPacket behind
        [(Breakwatch.mk type addr len).breakpoint] true 0) h.link).2 := by
    unfold linkedDevice TargetSTM32F1.breakpointsSetClear
    rw [List.length_singleton, rounds, if_pos Nat.one_pos, hround]
    cases hdev : h.link.device with
    | none =>
      rw [exchange_dead hdev]
      exact ⟨0, _, rfl, rfl⟩
    | some d =>
      obtain ⟨e, hconfirmed, -, -⟩ := exchange_one behind hdev (hcollected d hdev)
        (Breakwatch.mk type addr len).breakpoint
      rw [hconfirmed]
      exact ⟨1, _, rounds_done _ _ _ _ le_rfl, rfl⟩
  obtain ⟨n, h', hcall, hlink⟩ := hdevice
  refine ⟨h', ?_, hlink⟩
  unfold gdbBreakpoint targetBreakwatchSet stm32BreakwatchSet stm32Breakwatch
  simp only [if_true]
  rw [show ([(Breakwatch.mk type addr len)].map Breakwatch.breakpoint) =
    [(Breakwatch.mk type addr len).breakpoint] from rfl, hcall]
  rfl

/-- A `Z` packet is answered `OK`, or changes the list, only if the device then stops at the
address. -/
def SetsOnlyArmed (behind : ℕ → UInt8) (type addr len : UInt32)
    (t : List Breakwatch × Host Link) : Prop :=
  ∀ fuel reply t', gdbBreakpoint (linkedDevice behind fuel) true type addr len t = .ok (reply, t') →
    reply = .ok ∨ t'.1 ≠ t.1 → ∃ e, t'.2.link.device = some e ∧ Armed e.fpComp addr

theorem setsOnlyArmed_iff (behind : ℕ → UInt8) (type addr len : UInt32)
    (t : List Breakwatch × Host Link) (hcollected : t.2.link.Collected) :
    SetsOnlyArmed behind type addr len t ↔
      ∃ d, t.2.link.device = some d ∧ HasRoom d.fpComp addr := by
  constructor
  · intro h
    obtain ⟨h', hcall, hlink⟩ := gdbBreakpoint_one behind 0 type addr len t hcollected
    obtain ⟨e, he, harmed⟩ := h 1 _ _ hcall (Or.inl rfl)
    cases hdev : t.2.link.device with
    | none =>
      rw [hlink, exchange_dead hdev, hdev] at he
      cases he
    | some d =>
      obtain ⟨e', -, he', hcomp⟩ := exchange_one behind hdev (hcollected d hdev)
        (Breakwatch.mk type addr len).breakpoint
      obtain rfl := Option.some.inj (he'.symm.trans (hlink ▸ he))
      rw [hcomp] at harmed
      exact ⟨d, rfl, harmed.hasRoom.of_setComparator⟩
  · rintro ⟨d, hdev, hroom⟩ fuel reply t' hcall -
    cases fuel with
    | zero => cases hcall
    | succ fuel =>
      obtain ⟨h', hcall', hlink⟩ := gdbBreakpoint_one behind fuel type addr len t
        hcollected
      obtain ⟨-, rfl⟩ := Prod.mk.inj (Except.ok.inj (hcall'.symm.trans hcall))
      obtain ⟨e, -, he, hcomp⟩ := exchange_one behind hdev (hcollected d hdev)
        (Breakwatch.mk type addr len).breakpoint
      refine ⟨e, hlink ▸ he, ?_⟩
      rw [hcomp]
      exact armed_setComparator hroom

/-- A reply counts armed entries only exactly if every entry in its turn finds a comparator with its
word or one that is not enabled, and a breakpoint is reported set only if it is armed exactly if the
device is at work and has such a comparator. -/
theorem breakpointsReported_iff (p : BreakpointPacket) (outBuf : Frame) (outSize : ℕ) (d : Device)
    (hset : p.head.set ≠ 0) (behind : ℕ → UInt8) (type addr len : UInt32)
    (t : List Breakwatch × Host Link) (hcollected : t.2.link.Collected) :
    (ReportsArmed p outBuf outSize d ↔ Accommodates d.fpComp p.addresses) ∧
    (SetsOnlyArmed behind type addr len t ↔
      ∃ d, t.2.link.device = some d ∧ HasRoom d.fpComp addr) :=
  ⟨reportsArmed_iff_accommodates p outBuf outSize d hset,
    setsOnlyArmed_iff behind type addr len t hcollected⟩

/-- A device with eight breakpoints in other words. -/
def fullDevice : Device := { Device.initial blankMemory bootSymbols with
  fpComp := #v[0x48005001, 0x48005011, 0x48005021, 0x48005031, 0x48005041, 0x48005051, 0x48005061,
    0x48005071] }

theorem breakpointsReported_iff_full :
    (ReportsArmed setBothHalves Frame.zero 64 fullDevice ↔
      Accommodates fullDevice.fpComp setBothHalves.addresses) ∧
    (SetsOnlyArmed (fun _ => 0) 1 0x08004000 2
        ([], ⟨Frame.zero, Frame.zero, ⟨some fullDevice, [], []⟩⟩) ↔
      ∃ d, some fullDevice = some d ∧ HasRoom d.fpComp 0x08004000) :=
  breakpointsReported_iff setBothHalves Frame.zero 64 fullDevice (by decide) (fun _ => 0) 1
    0x08004000 2 ([], ⟨Frame.zero, Frame.zero, ⟨some fullDevice, [], []⟩⟩) fun d hd => by
      obtain rfl := Option.some.inj hd
      rfl

/-- A ninth breakpoint is confirmed by the firmware and by the server. -/
theorem not_breakpointsReported :
    ¬ ReportsArmed setBothHalves Frame.zero 64 fullDevice ∧
    ¬ SetsOnlyArmed (fun _ => 0) 1 0x08004000 2
      ([], ⟨Frame.zero, Frame.zero, ⟨some fullDevice, [], []⟩⟩) := by
  constructor
  · rw [reportsArmed_iff_accommodates _ _ _ _ (by decide)]
    intro h
    exact absurd h.1 (by decide)
  · rw [setsOnlyArmed_iff]
    · rintro ⟨d, hd, hroom⟩
      obtain rfl := Option.some.inj hd
      exact absurd hroom (by decide)
    · intro d hd
      obtain rfl := Option.some.inj hd
      rfl

end BluePill
