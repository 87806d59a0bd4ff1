import BluePill.Lib.Fallible
import BluePill.Firmware.Commands

/-! What handling one packet does to the monitor and to the flash log, for every packet. -/
namespace BluePill
open Lib

/-- A call of one of the five request functions. -/
inductive Request where
  | halt
  | resume (step : Bool)
  | startFirmware
  | startLocalLoop
  | startEraseLoop (address size : ℕ)
  deriving DecidableEq, Repr

def Device.serve (d : Device) : Request → Device
  | .halt => d.debugHaltRequest.2
  | .resume step => (d.debugResume step).2
  | .startFirmware => d.debugStartFirmware.2
  | .startLocalLoop => d.debugStartLocalLoop.2
  | .startEraseLoop address size => (d.debugStartEraseLoop address size).2

inductive FlashEvent.IsProgram : FlashEvent → Prop
  | intro (address data : ℕ) : IsProgram (.programmed address data)

/-- A packet makes some requests, or it programs some half-words and makes none. -/
inductive PacketEffect (d d' : Device) : Prop
  | requests (rs : List Request) (hmon : d'.mon = (rs.foldl Device.serve d).mon)
      (hlog : d'.flashLog = (rs.foldl Device.serve d).flashLog)
  | programs (log : List FlashEvent) (hmon : d'.mon = d.mon)
      (hlog : d'.flashLog = d.flashLog ++ log) (hall : ∀ e ∈ log, e.IsProgram)

theorem PacketEffect.quiet {d d' : Device} (hmon : d'.mon = d.mon)
    (hlog : d'.flashLog = d.flashLog) : PacketEffect d d' := .requests [] hmon hlog

theorem dbgMemcpyLoop_ensures {σ : Type} (w : AccessWidth) (copy : ℕ → σ → Except Fault σ)
    (P : σ → Prop) (hcopy : ∀ off s, P s → Ensures (copy off s) P) (copySize offset : ℕ) (s : σ)
    (h : P s) : Ensures (dbgMemcpyLoop w copy copySize offset s) P := by
  induction copySize using Nat.strong_induction_on generalizing offset s with
  | _ n ih =>
    rw [dbgMemcpyLoop]
    refine Ensures.ite (fun _ => .ok h) fun hn => ?_
    refine Ensures.ite (fun _ => .error _) fun _ => ?_
    have hw := w.bytes_pos
    exact (hcopy offset s h).bind fun s' hs' => ih (n - w.bytes) (by omega) _ s' hs'

theorem flashWriteLoop_effect (address : ℕ) (data : List UInt8) (size dataIndex : ℕ) (d : Device) :
    Ensures (flashWriteLoop address data size dataIndex d) fun d' => d'.mon = d.mon ∧
      ∃ log, d'.flashLog = d.flashLog ++ log ∧ ∀ e ∈ log, e.IsProgram := by
  induction h : size - dataIndex using Nat.strong_induction_on generalizing dataIndex d with
  | _ n ih =>
    rw [flashWriteLoop]
    refine Ensures.ite (fun hlt => ?_) fun _ => .ok ⟨rfl, [], by simp, by simp⟩
    split
    next lo hi _ _ =>
      refine (ih (size - (dataIndex + 2)) (by omega) (dataIndex + 2) _ rfl).mono ?_
      rintro d' ⟨hmon, log, hlog, hall⟩
      refine ⟨hmon, .programmed ((address + dataIndex) % 4294967296)
        (lo.toNat ||| (hi.toNat <<< 8)) :: log, ?_, ?_⟩
      · rw [hlog, Device.flashProgramHalfWord, List.append_assoc, List.singleton_append]
      · intro e he
        rcases List.mem_cons.mp he with rfl | he
        · exact .intro _ _
        · exact hall e he
    next => exact .error _

section

variable (inBuf : List UInt8) (inSize : ℕ) (outBuf : Frame) (outSize : ℕ) (d : Device)

theorem memoryReadCommand_effect : Ensures (memoryReadCommand inBuf inSize outBuf outSize d)
    fun r => PacketEffect d r.2.2 := by
  unfold memoryReadCommand
  refine (Ensures.any _).bind fun valid _ => ?_
  refine Ensures.ite (fun _ => .ok (.quiet rfl rfl)) fun _ => ?_
  refine (Ensures.any _).bind fun head _ => ?_
  refine (Ensures.any _).bind fun frame _ => ?_
  refine Ensures.ite (fun _ => ?_) fun _ =>
    (Ensures.any _).bind fun frame _ => .ok (.quiet rfl rfl)
  have hcopy := dbgMemcpyLoop_ensures (accessWidth head.align.toNat)
    (copyFromTarget head.address MemReadWriteHead.size (accessWidth head.align.toNat))
    (fun s => s.2.mon = d.mon ∧ s.2.flashLog = d.flashLog)
    (fun off s hs => (Ensures.any _).bind fun frame _ => .ok hs)
  exact (hcopy _ 0 (frame, d) ⟨rfl, rfl⟩).bind fun s hs => .ok (.quiet hs.1 hs.2)

theorem memoryWriteCommand_effect : Ensures (memoryWriteCommand inBuf inSize outBuf outSize d)
    fun r => PacketEffect d r.2.2 := by
  unfold memoryWriteCommand
  refine (Ensures.any _).bind fun valid _ => ?_
  refine Ensures.ite (fun _ => .ok (.quiet rfl rfl)) fun _ => ?_
  refine (Ensures.any _).bind fun head _ => ?_
  refine Ensures.ite (fun _ => ?_) fun _ => ?_
  · refine (flashWriteLoop_effect _ _ _ 0 d).bind ?_
    rintro d' ⟨hmon, log, hlog, hall⟩
    exact (Ensures.any _).bind fun frame _ => .ok (.programs log hmon hlog hall)
  · have hcopy := dbgMemcpyLoop_ensures
      (accessWidth (getValidatedAlign head.align.toNat))
      (copyToTarget head.address inBuf MemReadWriteHead.size
        (accessWidth (getValidatedAlign head.align.toNat)))
      (fun d' => d'.mon = d.mon ∧ d'.flashLog = d.flashLog)
      (fun off s hs => (Ensures.any _).bind fun bytes _ => .ok hs)
    refine (hcopy _ 0 d ⟨rfl, rfl⟩).bind fun d' hd' => ?_
    exact (Ensures.any _).bind fun frame _ => .ok (.quiet hd'.1 hd'.2)

theorem regsReadCommand_effect : Ensures (regsReadCommand inBuf inSize outBuf outSize d)
    fun r => PacketEffect d r.2.2 := by
  unfold regsReadCommand
  refine (Ensures.any _).bind fun valid _ => ?_
  refine Ensures.ite (fun _ => .ok (.quiet rfl rfl)) fun _ => ?_
  refine (Ensures.any _).bind fun head _ => ?_
  refine Ensures.ite (fun _ => .ok (.quiet rfl rfl)) fun _ => ?_
  refine (Ensures.any _).bind fun words _ => ?_
  refine (Ensures.any _).bind fun frame _ => ?_
  exact (Ensures.any _).bind fun frame _ => .ok (.quiet rfl rfl)

theorem regsWriteCommand_effect : Ensures (regsWriteCommand inBuf inSize outBuf outSize d)
    fun r => PacketEffect d r.2.2 := by
  unfold regsWriteCommand
  refine (Ensures.any _).bind fun valid _ => ?_
  refine Ensures.ite (fun _ => .ok (.quiet rfl rfl)) fun _ => ?_
  refine (Ensures.any _).bind fun head _ => ?_
  refine Ensures.ite (fun _ => .ok (.quiet rfl rfl)) fun _ => ?_
  refine (Ensures.any _).bind fun context _ => ?_
  exact (Ensures.any _).bind fun frame _ => .ok (.quiet rfl rfl)

theorem resetHaltCommand_effect : Ensures (resetHaltCommand inBuf inSize outBuf outSize d)
    fun r => PacketEffect d r.2.2 := by
  unfold resetHaltCommand
  refine (Ensures.any _).bind fun valid _ => ?_
  refine Ensures.ite (fun _ => .ok (.quiet rfl rfl)) fun _ => ?_
  refine (Ensures.any _).bind fun head _ => ?_
  refine (Ensures.any _).bind fun frame _ => .ok ?_
  rcases ResetHaltCommand.ofByte head.sub with _ | cmd
  · exact .quiet rfl rfl
  · cases cmd with
    | resetOnly => exact .requests [.halt] rfl rfl
    | haltOnly => exact .requests [.halt] rfl rfl
    | resetAndHalt => exact .requests [.halt] rfl rfl
    | resume => exact .requests [.resume false] rfl rfl
    | resumeStep => exact .requests [.resume true] rfl rfl
    | getState => exact .quiet rfl rfl

theorem flashCommand_effect : Ensures (flashCommand inBuf inSize outBuf outSize d)
    fun r => PacketEffect d r.2.2 := by
  unfold flashCommand
  refine (Ensures.any _).bind fun valid _ => ?_
  refine Ensures.ite (fun _ => .ok (.quiet rfl rfl)) fun _ => ?_
  refine (Ensures.any _).bind fun head _ => ?_
  rcases FlashCommand.ofByte head.flashCommand with _ | cmd
  · exact (Ensures.any _).bind fun frame _ => .ok (.quiet rfl rfl)
  · cases cmd with
    | unlock => exact (Ensures.any _).bind fun frame _ => .ok (.requests [.startLocalLoop] rfl rfl)
    | lock => exact (Ensures.any _).bind fun frame _ => .ok (.quiet rfl rfl)
    | erase =>
      exact (Ensures.any _).bind fun frame _ =>
        .ok (.requests [.startEraseLoop head.address head.blockSize] rfl rfl)
    | detach => exact (Ensures.any _).bind fun frame _ => .ok (.requests [.startFirmware] rfl rfl)

theorem attachCommand_effect : Ensures (attachCommand inBuf inSize outBuf outSize d)
    fun r => PacketEffect d r.2.2 := by
  unfold attachCommand
  refine (Ensures.any _).bind fun valid _ => ?_
  refine Ensures.ite (fun _ => .ok (.quiet rfl rfl)) fun _ => ?_
  refine (Ensures.any _).bind fun head _ => ?_
  refine (Ensures.any _).bind fun frame _ => .ok ?_
  by_cases h₀ : head.sub = 0
  · rw [h₀]
    exact .requests [.halt] rfl rfl
  · simp only [h₀, if_false]
    by_cases h₁ : head.sub = 1
    · simp only [h₁, if_true]
      exact .requests [.startFirmware, .resume false] rfl rfl
    · simp only [h₁, if_false]
      exact .quiet rfl rfl

theorem breakpointCommand_effect : Ensures (breakpointCommand inBuf inSize outBuf outSize d)
    fun r => PacketEffect d r.2.2 := by
  unfold breakpointCommand
  refine (Ensures.any _).bind fun valid _ => ?_
  refine Ensures.ite (fun _ => .ok (.quiet rfl rfl)) fun _ => ?_
  refine (Ensures.any _).bind fun head _ => ?_
  refine (Ensures.any _).bind fun frame _ => ?_
  exact (Ensures.any _).bind fun fpComp _ => .ok (.quiet rfl rfl)

theorem dispatchCommand_effect : Ensures (dispatchCommand inBuf inSize outBuf d)
    fun r => PacketEffect d r.2.2 := by
  unfold dispatchCommand
  rcases inBuf with _ | ⟨c, rest⟩
  · exact .error _
  · dsimp only
    rcases DebugCommand.ofByte c with _ | cmd
    · exact .ok (.quiet rfl rfl)
    · cases cmd with
      | memoryRead => exact memoryReadCommand_effect _ _ _ _ _
      | memoryWrite => exact memoryWriteCommand_effect _ _ _ _ _
      | regsRead => exact regsReadCommand_effect _ _ _ _ _
      | regsWrite => exact regsWriteCommand_effect _ _ _ _ _
      | resetHalt => exact resetHaltCommand_effect _ _ _ _ _
      | breakpoint => exact breakpointCommand_effect _ _ _ _ _
      | flash => exact flashCommand_effect _ _ _ _ _
      | attach => exact attachCommand_effect _ _ _ _ _

end

theorem epWritePacket_mon (d : Device) (reply : List UInt8) :
    (d.epWritePacket reply).mon = d.mon := by
  unfold Device.epWritePacket
  split <;> rfl

theorem epWritePacket_flashLog (d : Device) (reply : List UInt8) :
    (d.epWritePacket reply).flashLog = d.flashLog := by
  unfold Device.epWritePacket
  split <;> rfl

/-- The USB buffers take no part in what requests do to the monitor and the log. -/
theorem foldl_serve_congr {d e : Device} (hmon : d.mon = e.mon) (hlog : d.flashLog = e.flashLog)
    (rs : List Request) : (rs.foldl Device.serve d).mon = (rs.foldl Device.serve e).mon ∧
      (rs.foldl Device.serve d).flashLog = (rs.foldl Device.serve e).flashLog := by
  induction rs generalizing d e with
  | nil => exact ⟨hmon, hlog⟩
  | cons r rs ih =>
    apply ih
    · cases r <;>
        simp only [Device.serve, Device.debugHaltRequest, Device.debugResume,
          Device.debugStartFirmware, Device.debugStartLocalLoop, Device.debugStartEraseLoop, hmon]
    · cases r <;>
        simp only [Device.serve, Device.debugHaltRequest, Device.debugResume,
          Device.debugStartFirmware, Device.debugStartLocalLoop, Device.debugStartEraseLoop, hmon,
          hlog]

theorem usbDataOutCallback_effect {packet : List UInt8} {d d' : Device}
    (h : usbDataOutCallback packet d = .ok d') : PacketEffect d d' := by
  have hens : Ensures (usbDataOutCallback packet d) (PacketEffect d) := by
    unfold usbDataOutCallback
    refine Ensures.ite (fun _ => .ok (.quiet rfl rfl)) fun _ => ?_
    refine (dispatchCommand_effect _ _ _ _).bind ?_
    rintro ⟨retSize, outBuf, e⟩ heffect
    refine Ensures.ite (fun _ => .error _) fun _ => .ok ?_
    cases heffect with
    | requests rs hmon hlog =>
      have hcongr := foldl_serve_congr
        (d := { d with usbCmdFrame := d.usbCmdFrame.receive packet, usbInitialized := true })
        (e := d) rfl rfl rs
      refine .requests rs ?_ ?_
      · rw [epWritePacket_mon]
        exact hmon.trans hcongr.1
      · rw [epWritePacket_flashLog]
        exact hlog.trans hcongr.2
    | programs log hmon hlog hall =>
      refine .programs log ?_ ?_ hall
      · rw [epWritePacket_mon]
        exact hmon
      · rw [epWritePacket_flashLog]
        exact hlog
  exact hens _ h

end BluePill
