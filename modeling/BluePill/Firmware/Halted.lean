import BluePill.Firmware.HaltState
import BluePill.Firmware.MemoryPackets
import BluePill.Firmware.ReplyEcho

/-! A halted target: the handler goes round in its command loop and no command waits. Nothing
changes until the host sends one. -/
namespace BluePill
open Lib

structure Config.Halted (c : Config) : Prop where
  line : c.line = .get ∨ c.line = .wfi ∨ c.line = .loopTest
  queue : c.dev.mon.gCmdQueue.toList = []
  state : c.dev.mon.gHaltState ≠ .running

/-- A packet that asks for memory, for registers or for the halt state. -/
def AsksOnly (packet : List UInt8) : Prop :=
  commandOf packet = some .memoryRead ∨ commandOf packet = some .regsRead ∨
    commandOf packet = some .resetHalt ∧ packet[1]? = some ResetHaltCommand.getState.toByte

instance (packet : List UInt8) : Decidable (AsksOnly packet) := by
  unfold AsksOnly
  infer_instance

/-- The host only asks. -/
def asksOnlyStep (_ : Config) : Event → Prop
  | .usb packet => AsksOnly packet
  | _ => True

instance (c : Config) (e : Event) : Decidable (asksOnlyStep c e) := by
  unfold asksOnlyStep
  split <;> infer_instance

/-- The device without its USB buffers and the history of its accesses. -/
def Device.bare (d : Device) : Device := { d.target with accesses := [] }

theorem debugHandler_inEndpoint (l : Line) (d : Device) :
    (debugHandler l d).2.inEndpoint = d.inEndpoint := by
  cases l
  case get =>
    simp only [debugHandler]
    rcases d.mon.gCmdQueue.get with _ | c <;> rfl
  all_goals rfl

theorem threadStep_inEndpoint (l : EraseLine) (d : Device) :
    (threadStep l d).inEndpoint = d.inEndpoint := by
  cases l
  case pull =>
    simp only [threadStep, flashEraseLoop]
    rcases d.mon.gEraseParams.pull with ⟨_ | p, q⟩ <;> rfl
  case erasePage p cur erase => cases erase <;> rfl
  all_goals rfl

/-- Only the USB puts replies into the IN endpoint and takes them out. -/
theorem step_inEndpoint {c c' : Config} {e : Event} (h : step c e = some c')
    (husb : ∀ packet, e ≠ .usb packet) (hcollect : e ≠ .collect) :
    c'.dev.inEndpoint = c.dev.inEndpoint := by
  rcases step_cases h with ⟨packet, rfl, -⟩ | ⟨rfl, -⟩ | ⟨regs, -, -, -, rfl⟩ |
    ⟨-, -, rfl⟩ | ⟨l, -, -, -, -, rfl⟩ | ⟨a, -, -, -, rfl⟩
  · exact absurd rfl (husb packet)
  · exact absurd rfl hcollect
  · rfl
  · exact debugHandler_inEndpoint c.line c.dev
  · exact threadStep_inEndpoint l c.dev
  · cases a <;> rfl

section

variable (inBuf : List UInt8) (inSize : ℕ) (outBuf : Frame) (outSize : ℕ) (d : Device)

theorem memoryReadCommand_bare : Ensures (memoryReadCommand inBuf inSize outBuf outSize d)
    fun r => r.2.2.bare = d.bare := by
  unfold memoryReadCommand
  refine (Ensures.any _).bind fun valid _ => ?_
  refine Ensures.ite (fun _ => .ok rfl) fun _ => ?_
  refine (Ensures.any _).bind fun head _ => ?_
  refine (Ensures.any _).bind fun frame _ => ?_
  refine Ensures.ite (fun _ => ?_) fun _ => (Ensures.any _).bind fun frame _ => .ok rfl
  have hcopy := dbgMemcpyLoop_ensures (accessWidth head.align.toNat)
    (copyFromTarget head.address MemReadWriteHead.size (accessWidth head.align.toNat))
    (fun s => s.2.bare = d.bare) (fun off s hs => (Ensures.any _).bind fun frame _ => .ok hs)
  exact (hcopy _ 0 (frame, d) rfl).bind fun s hs => .ok hs

theorem regsReadCommand_bare : Ensures (regsReadCommand inBuf inSize outBuf outSize d)
    fun r => r.2.2.bare = d.bare := by
  unfold regsReadCommand
  refine (Ensures.any _).bind fun valid _ => ?_
  refine Ensures.ite (fun _ => .ok rfl) fun _ => ?_
  refine (Ensures.any _).bind fun head _ => ?_
  refine Ensures.ite (fun _ => .ok rfl) fun _ => ?_
  refine (Ensures.any _).bind fun words _ => ?_
  refine (Ensures.any _).bind fun frame _ => ?_
  exact (Ensures.any _).bind fun frame _ => .ok rfl

theorem resetHaltCommand_bare (hsub : inBuf[1]? = some ResetHaltCommand.getState.toByte) :
    Ensures (resetHaltCommand inBuf inSize outBuf outSize d) fun r => r.2.2.bare = d.bare := by
  unfold resetHaltCommand
  refine (Ensures.any _).bind fun valid _ => ?_
  refine Ensures.ite (fun _ => .ok rfl) fun _ => ?_
  refine (readHead_decodes SubCmdHead.decode inBuf).bind fun head hdecode => ?_
  refine (Ensures.any _).bind fun frame _ => ?_
  obtain ⟨rest, hbuf⟩ := SubCmdHead.eq_of_decode hdecode
  have hhead : head.sub = ResetHaltCommand.getState.toByte := by
    rw [hbuf] at hsub
    exact Option.some.inj hsub
  have hof : ResetHaltCommand.ofByte ResetHaltCommand.getState.toByte = some .getState := by decide
  rw [hhead, hof]
  exact .ok rfl

theorem dispatchCommand_bare (h : AsksOnly inBuf) :
    Ensures (dispatchCommand inBuf inSize outBuf d) fun r => r.2.2.bare = d.bare := by
  rcases inBuf with _ | ⟨b, rest⟩
  · exact .error _
  · have hof : commandOf (b :: rest) = DebugCommand.ofByte b := rfl
    unfold AsksOnly at h
    rw [hof] at h
    unfold dispatchCommand
    rcases h with h | h | ⟨h, hsub⟩
    · simp only [h]
      exact memoryReadCommand_bare _ _ _ _ _
    · simp only [h]
      exact regsReadCommand_bare _ _ _ _ _
    · simp only [h]
      exact resetHaltCommand_bare _ _ _ _ _ hsub

end

theorem epWritePacket_bare (d : Device) (reply : List UInt8) :
    (d.epWritePacket reply).bare = d.bare := by
  unfold Device.epWritePacket
  split <;> rfl

/-- The handlers find the packet at the front of the buffer. -/
theorem receive_getElem? {packet : List UInt8} {i : ℕ} (hi : i < 64) {b : UInt8}
    (hb : packet[i]? = some b) (f : Frame) : (f.receive packet).val[i]? = some b := by
  have hlt : i < (packet.take 64).length := by
    have hle := (List.getElem?_eq_some_iff.mp hb).1
    rw [List.length_take]
    omega
  show (packet.take 64 ++ f.val.drop (packet.take 64).length)[i]? = some b
  rw [List.getElem?_append_left hlt, List.getElem?_take_of_lt hi, hb]

theorem commandOf_receive {packet : List UInt8} {c : DebugCommand}
    (hc : commandOf packet = some c) (f : Frame) :
    commandOf (f.receive packet).val = some c := by
  rw [commandOf_getElem] at hc ⊢
  obtain ⟨b, hb, hof⟩ := Option.bind_eq_some_iff.mp hc
  rw [receive_getElem? (by norm_num) hb, Option.bind_some, hof]

theorem asksOnly_receive {packet : List UInt8} (h : AsksOnly packet) (f : Frame) :
    AsksOnly (f.receive packet).val := by
  rcases h with h | h | ⟨h, hsub⟩
  · exact .inl (commandOf_receive h f)
  · exact .inr (.inl (commandOf_receive h f))
  · exact .inr (.inr ⟨commandOf_receive h f, receive_getElem? (by norm_num) hsub f⟩)

theorem usbDataOutCallback_bare {packet : List UInt8} (hasks : AsksOnly packet) (d : Device) :
    Ensures (usbDataOutCallback packet d) fun e => e.bare = d.bare := by
  unfold usbDataOutCallback
  refine Ensures.ite (fun _ => .ok rfl) fun _ => ?_
  refine (dispatchCommand_bare _ _ _ _ (asksOnly_receive hasks _)).bind ?_
  rintro ⟨retSize, outBuf, e⟩ he
  refine Ensures.ite (fun _ => .error _) fun _ => .ok ?_
  rw [epWritePacket_bare]
  exact he

/-- What the handler does next is to go round. -/
theorem Config.Halted.handler {c : Config} (h : c.Halted) :
    (debugHandler c.line c.dev).2 = c.dev ∧
      Config.Halted ⟨(debugHandler c.line c.dev).1, (debugHandler c.line c.dev).2⟩ := by
  obtain ⟨hline, hqueue, hstate⟩ := h
  rcases hline with hline | hline | hline
  · have hget : c.dev.mon.gCmdQueue.get = none := by
      rw [CircularBuffer.get_eq, hqueue]
      rfl
    have hnext : debugHandler .get c.dev = (.wfi, c.dev) := by
      simp only [debugHandler, hget]
    rw [hline, hnext]
    exact ⟨rfl, .inr (.inl rfl), hqueue, hstate⟩
  · rw [hline]
    exact ⟨rfl, .inr (.inr rfl), hqueue, hstate⟩
  · have hnext : debugHandler .loopTest c.dev = (.get, c.dev) := by
      simp only [debugHandler, hstate, ne_eq, not_false_eq_true, if_true]
    rw [hline, hnext]
    exact ⟨rfl, .inl rfl, hqueue, hstate⟩

theorem Config.Halted.ne_outside {c : Config} (h : c.Halted) : c.line ≠ .outside := by
  rcases h.line with hline | hline | hline <;> rw [hline] <;> decide

theorem Device.mon_of_bare {d e : Device} (h : d.bare = e.bare) : d.mon = e.mon := by
  show d.bare.mon = e.bare.mon
  rw [h]

theorem Config.Halted.step {c c' : Config} {e : Event} (h : c.Halted) (hasks : asksOnlyStep c e)
    (hstep : step c e = some c') : c'.Halted ∧ c'.dev.bare = c.dev.bare := by
  rcases step_cases hstep with ⟨packet, rfl, -, hline, hd⟩ | ⟨rfl, rfl⟩ | ⟨regs, rfl, hline, -⟩ |
    ⟨rfl, -, rfl⟩ | ⟨l, rfl, hline, -⟩ | ⟨a, rfl, hline, -⟩
  · have hbare := usbDataOutCallback_bare hasks c.dev _ hd
    have hmon := Device.mon_of_bare hbare
    exact ⟨⟨by rw [hline]; exact h.line, by rw [hmon]; exact h.queue, by rw [hmon]; exact h.state⟩,
      hbare⟩
  · exact ⟨⟨h.line, h.queue, h.state⟩, rfl⟩
  · exact absurd hline h.ne_outside
  · obtain ⟨hdev, hhalted⟩ := h.handler
    exact ⟨hhalted, congrArg Device.bare hdev⟩
  · exact absurd hline h.ne_outside
  · exact absurd hline h.ne_outside

/-- While the host only asks, a halted target stays halted and nothing in it changes. -/
theorem Config.Halted.run {c c' : Config} {es : List Event} (h : c.Halted)
    (hrun : Run BluePill.step asksOnlyStep c es c') : c'.Halted ∧ c'.dev.bare = c.dev.bare := by
  induction hrun with
  | start => exact ⟨h, rfl⟩
  | snoc _ hasks hstep ih =>
    obtain ⟨hhalted, hbare⟩ := ih
    obtain ⟨hhalted', hbare'⟩ := hhalted.step hasks hstep
    exact ⟨hhalted', hbare'.trans hbare⟩

/-- A packet that lets the target run. -/
def AsksResume (packet : List UInt8) : Prop :=
  commandOf packet = some .resetHalt ∧ packet[1]? = some ResetHaltCommand.resume.toByte

theorem resetHaltCommand_resume (inBuf : List UInt8) (inSize : ℕ) (outBuf : Frame) (outSize : ℕ)
    (d : Device) (hsub : inBuf[1]? = some ResetHaltCommand.resume.toByte) :
    Ensures (resetHaltCommand inBuf inSize outBuf outSize d) fun r =>
      r.1 ≠ 0 → r.2.2.bare = (d.debugResume false).2.bare := by
  unfold resetHaltCommand
  refine (Ensures.any _).bind fun valid _ => ?_
  refine Ensures.ite (fun _ => .ok fun hzero => absurd rfl hzero) fun _ => ?_
  refine (readHead_decodes SubCmdHead.decode inBuf).bind fun head hdecode => ?_
  refine (Ensures.any _).bind fun frame _ => ?_
  obtain ⟨rest, hbuf⟩ := SubCmdHead.eq_of_decode hdecode
  have hhead : head.sub = ResetHaltCommand.resume.toByte := by
    rw [hbuf] at hsub
    exact Option.some.inj hsub
  have hof : ResetHaltCommand.ofByte ResetHaltCommand.resume.toByte = some .resume := by decide
  rw [hhead, hof]
  exact .ok fun _ => rfl

theorem usbDataOutCallback_resume {packet : List UInt8} (hasks : AsksResume packet) (d : Device) :
    Ensures (usbDataOutCallback packet d) fun e => e.bare = (d.debugResume false).2.bare := by
  obtain ⟨hcommand, hsub⟩ := hasks
  unfold usbDataOutCallback
  refine Ensures.ite (fun hzero => ?_) fun _ => ?_
  · have hnil : packet = [] := by simpa using hzero
    rw [hnil] at hcommand
    contradiction
  dsimp only
  rw [dispatchCommand_eq _ _ (commandOf_receive hcommand d.usbCmdFrame)]
  refine (resetHaltCommand_resume _ _ _ _ _ (receive_getElem? (by norm_num) hsub _)).bind ?_
  rintro ⟨retSize, outBuf, e⟩ he
  refine Ensures.ite (fun _ => .error _) fun hsize => .ok ?_
  rw [epWritePacket_bare]
  exact he hsize

/-- The command waits. -/
def Monitor.Resumes (m : Monitor) : Prop :=
  m.gCmdQueue.toList = [.resume] ∧ m.gHaltState ≠ .running

/-- The command has been carried out. -/
def Monitor.Resumed (m : Monitor) : Prop :=
  m.gCmdQueue.toList = [] ∧ m.monStep = false ∧ m.gHaltState = .running

/-- The handler is `n` statements from its return. -/
def resumingAt (m : Monitor) (n : ℕ) : Line → Prop
  | .wfi => n = 11 ∧ m.Resumes
  | .loopTest => n = 10 ∧ m.Resumes ∨ n = 4 ∧ m.Resumed
  | .get => n = 9 ∧ m.Resumes
  | .switch => n = 8 ∧ m.Resumes ∧ m.cmd = .resume
  | .pull c => n = 7 ∧ m.Resumes ∧ c = .resume
  | .resumeClearMonStep => n = 6 ∧ m.gCmdQueue.toList = []
  | .loopSetRunning => n = 5 ∧ m.gCmdQueue.toList = [] ∧ m.monStep = false
  | .finalTestEmpty => n = 3 ∧ m.Resumed
  | .finalClearPend => n = 2 ∧ m.Resumed
  | .leave => n = 1 ∧ m.Resumed ∧ m.monPend = false
  | .outside => n = 0 ∧ m.Resumed ∧ m.monPend = false
  | _ => False

/-- A statement of the handler brings the return nearer and touches the monitor only. -/
theorem resumingAt_handler {l : Line} {d : Device} {n : ℕ} (h : resumingAt d.mon n l)
    (hl : l ≠ .outside) : ∃ k m, n = k + 1 ∧ (debugHandler l d).2 = { d with mon := m } ∧
      m.gHaltState = (if k < 5 then .running else d.mon.gHaltState) ∧
      resumingAt m k (debugHandler l d).1 := by
  cases l
  case wfi =>
    obtain ⟨rfl, hresumes⟩ := h
    exact ⟨10, d.mon, rfl, rfl, rfl, .inl ⟨rfl, hresumes⟩⟩
  case loopTest =>
    rcases h with ⟨rfl, hresumes⟩ | ⟨rfl, hresumed⟩
    · refine ⟨9, d.mon, rfl, rfl, rfl, ?_⟩
      simp only [debugHandler, hresumes.2, ne_eq, not_false_eq_true, if_true]
      exact ⟨rfl, hresumes⟩
    · refine ⟨3, d.mon, rfl, rfl, hresumed.2.2, ?_⟩
      simp only [debugHandler, hresumed.2.2, ne_eq, not_true_eq_false, if_false]
      exact ⟨rfl, hresumed⟩
  case get =>
    obtain ⟨rfl, hresumes⟩ := h
    have hget : d.mon.gCmdQueue.get = some .resume := by
      rw [CircularBuffer.get_eq, hresumes.1]
      rfl
    refine ⟨8, { d.mon with cmd := .resume }, rfl, ?_, rfl, ?_⟩
    · simp only [debugHandler, hget]
    · simp only [debugHandler, hget]
      exact ⟨rfl, hresumes, rfl⟩
  case switch =>
    obtain ⟨rfl, hresumes, hcmd⟩ := h
    refine ⟨7, d.mon, rfl, rfl, rfl, ?_⟩
    simp only [debugHandler, hcmd]
    exact ⟨rfl, hresumes, rfl⟩
  case pull c =>
    obtain ⟨rfl, hresumes, rfl⟩ := h
    refine ⟨6, d.mon.pullCmd .resume, rfl, rfl, rfl, rfl, ?_⟩
    show d.mon.gCmdQueue.pull.2.toList = []
    rw [CircularBuffer.toList_pull, hresumes.1]
    rfl
  case resumeClearMonStep =>
    obtain ⟨rfl, hqueue⟩ := h
    exact ⟨5, _, rfl, rfl, rfl, rfl, hqueue, rfl⟩
  case loopSetRunning =>
    obtain ⟨rfl, hqueue, hstep⟩ := h
    exact ⟨4, _, rfl, rfl, rfl, .inr ⟨rfl, hqueue, hstep, rfl⟩⟩
  case finalTestEmpty =>
    obtain ⟨rfl, hresumed⟩ := h
    have hempty : d.mon.gCmdQueue.isEmpty = true := by
      rw [CircularBuffer.isEmpty_eq, hresumed.1]
      rfl
    refine ⟨2, d.mon, rfl, rfl, hresumed.2.2, ?_⟩
    simp only [debugHandler, hempty, if_true]
    exact ⟨rfl, hresumed⟩
  case finalClearPend =>
    obtain ⟨rfl, hresumed⟩ := h
    exact ⟨1, _, rfl, rfl, hresumed.2.2, rfl, hresumed, rfl⟩
  case leave =>
    obtain ⟨rfl, hresumed, hpend⟩ := h
    exact ⟨0, _, rfl, rfl, hresumed.2.2, rfl, hresumed, hpend⟩
  case outside => exact absurd rfl hl
  all_goals exact absurd h (by simp [resumingAt])

/-- How many statements of the command loop come before the command has been carried out. -/
def resumeDelay : Line → ℕ
  | .get => 5
  | .loopTest => 6
  | _ => 7

/-- The packet puts the command into the queue. -/
theorem Config.Halted.resume {c c' : Config} {packet : List UInt8} (h : c.Halted)
    (hasks : AsksResume packet) (hstep : BluePill.step c (.usb packet) = some c') :
    ∃ m, c'.dev.bare = { c.dev.bare with mon := m } ∧ c'.dev.mon = m ∧
      m.gHaltState = c.dev.mon.gHaltState ∧ resumeDelay c.line ≤ 7 ∧
      resumingAt m (resumeDelay c.line + 4) c'.line := by
  obtain ⟨p, heq, -, hline, hd⟩ | ⟨heq, -⟩ | ⟨_, heq, -⟩ | ⟨heq, -⟩ | ⟨_, heq, -⟩ | ⟨_, heq, -⟩ :=
    step_cases hstep
  all_goals try contradiction
  obtain rfl := Event.usb.inj heq
  have hbare := usbDataOutCallback_resume hasks c.dev _ hd
  have hmon : c'.dev.mon = (c.dev.mon.request .resume).2 := Device.mon_of_bare hbare
  have hresumes : (c.dev.mon.request .resume).2.Resumes := by
    have hput := CircularBuffer.toList_put c.dev.mon.gCmdQueue .resume
    rw [h.queue, if_pos (by norm_num)] at hput
    exact ⟨hput, h.state⟩
  refine ⟨(c.dev.mon.request .resume).2, hbare, hmon, rfl, ?_, ?_⟩
  · rcases h.line with hat | hat | hat <;> rw [hat] <;> decide
  · rw [hline]
    rcases h.line with hat | hat | hat
    · rw [hat]
      exact ⟨rfl, hresumes⟩
    · rw [hat]
      exact ⟨rfl, hresumes⟩
    · rw [hat]
      exact .inl ⟨rfl, hresumes⟩

/-- Inside the handler, and the host only asks. -/
def insideStep (c : Config) (e : Event) : Prop := c.line ≠ .outside ∧ asksOnlyStep c e

instance (c : Config) (e : Event) : Decidable (insideStep c e) := by
  unfold insideStep
  infer_instance

def Event.isHandler : Event → Bool
  | .handler => true
  | _ => false

theorem resumingAt_step {c c' : Config} {e : Event} {n : ℕ}
    (h : resumingAt c.dev.mon n c.line) (hok : insideStep c e) (hstep : step c e = some c') :
    ∃ k m, k + (if e.isHandler then 1 else 0) = n ∧ c'.dev.bare = { c.dev.bare with mon := m } ∧
      c'.dev.mon = m ∧
      m.gHaltState = (if e.isHandler ∧ k < 5 then .running else c.dev.mon.gHaltState) ∧
      resumingAt m k c'.line := by
  obtain ⟨hinside, hasks⟩ := hok
  rcases step_cases hstep with ⟨packet, rfl, -, hline, hd⟩ | ⟨rfl, rfl⟩ | ⟨regs, rfl, hline, -⟩ |
    ⟨rfl, -, rfl⟩ | ⟨l, rfl, hline, -⟩ | ⟨a, rfl, hline, -⟩
  · have hbare := usbDataOutCallback_bare hasks c.dev _ hd
    exact ⟨n, c.dev.mon, rfl, hbare, Device.mon_of_bare hbare, rfl, by rw [hline]; exact h⟩
  · exact ⟨n, c.dev.mon, rfl, rfl, rfl, rfl, h⟩
  · exact absurd hline hinside
  · obtain ⟨k, m, rfl, hdev, hstate, hat⟩ := resumingAt_handler h hinside
    refine ⟨k, m, rfl, congrArg Device.bare hdev, congrArg Device.mon hdev, ?_, hat⟩
    rw [hstate]
    simp [Event.isHandler]
  · exact absurd hline hinside
  · exact absurd hline hinside

/-- A halt is transparent. While the host only asks the target stays as it was at the halt; when it
is resumed, whatever else the host asks, it runs on with the memory, the saved registers and the
comparators of the halt, and without a step or a pending entry. The handler returns after eleven
statements at most, and for the first five to seven of them the host is still told the halt state of
the halt. -/
theorem halt_transparent {c c₁ c₂ c₃ : Config} {es₁ es₂ : List Event} {packet : List UInt8}
    (h : c.Halted) (hbefore : Run step asksOnlyStep c es₁ c₁) (hresume : AsksResume packet)
    (hstep : step c₁ (.usb packet) = some c₂) (hafter : Run step insideStep c₂ es₂ c₃) :
    c₁.Halted ∧ c₁.dev.bare = c.dev.bare ∧ es₂.countP Event.isHandler ≤ 11 ∧
      ∃ m, c₃.dev.bare = { c.dev.bare with mon := m } ∧
        m.gHaltState = (if es₂.countP Event.isHandler < resumeDelay c₁.line then
          c.dev.mon.gHaltState else .running) ∧
        (c₃.line = .outside → m.gHaltState = .running ∧ m.gCmdQueue.toList = [] ∧
          m.monStep = false ∧ m.monPend = false) := by
  obtain ⟨hhalted, hbare₁⟩ := h.run hbefore
  have hmon₁ : c₁.dev.mon = c.dev.mon := Device.mon_of_bare hbare₁
  obtain ⟨m₀, hbare₂, hmon₂, hstate₂, hdelay, hat₂⟩ := hhalted.resume hresume hstep
  have hrun : ∃ n m, es₂.countP Event.isHandler + n = resumeDelay c₁.line + 4 ∧
      c₃.dev.bare = { c.dev.bare with mon := m } ∧ c₃.dev.mon = m ∧
      m.gHaltState = (if n < 5 then .running else c.dev.mon.gHaltState) ∧
      resumingAt m n c₃.line := by
    have hdelay₀ : 5 ≤ resumeDelay c₁.line := by
      rcases hhalted.line with hat | hat | hat <;> rw [hat] <;> decide
    induction hafter with
    | start =>
      refine ⟨_, m₀, by simp, by rw [hbare₂, hbare₁], hmon₂, ?_, hat₂⟩
      rw [if_neg (by omega), hstate₂, hmon₁]
    | @snoc es t u e _ hok hs ih =>
      obtain ⟨n, m, hcount, hbare, hmon, hstate, hat⟩ := ih
      rw [← hmon] at hat
      obtain ⟨k, m', hk, hbare', hmon', hstate', hat'⟩ := resumingAt_step hat hok hs
      refine ⟨k, m', ?_, ?_, hmon', ?_, hat'⟩
      · rw [List.countP_append, List.countP_singleton]
        omega
      · rw [hbare', hbare]
      · rw [hstate', hmon, hstate]
        cases hhandler : e.isHandler with
        | false =>
          obtain rfl : k = n := by simpa [hhandler] using hk
          simp
        | true =>
          obtain rfl : k + 1 = n := by simpa [hhandler] using hk
          -- the state changes with the statement before the last four
          by_cases hlt : k < 5
          · simp [hlt]
          · rw [if_neg fun hboth => hlt hboth.2, if_neg (by omega), if_neg hlt]
  obtain ⟨n, m, hcount, hbare, -, hstate, hat⟩ := hrun
  refine ⟨hhalted, hbare₁, by omega, m, hbare, ?_, ?_⟩
  · rw [hstate]
    by_cases hn : n < 5
    · rw [if_pos hn, if_neg (by omega)]
    · rw [if_neg hn, if_pos (by omega)]
  · intro hline
    rw [hline] at hat
    obtain ⟨-, ⟨hqueue, hstep, hrunning⟩, hpend⟩ := hat
    exact ⟨hrunning, hqueue, hstep, hpend⟩

/-- The host asks for the state, for a register and for a word. -/
def askRun : List Event :=
  [.usb [4, 5, 0, 0], .handler, .collect, .usb [2, 1, 0, 0], .collect, .handler, .handler,
    .usb [0, 4, 4, 0, 0, 16, 0, 32], .handler, .collect]

/-- The handler goes on after the command, with a question in between. -/
def resumeRun : List Event :=
  .collect :: List.replicate 4 .handler ++ [.usb [4, 5, 0, 0], .collect] ++
    List.replicate 6 .handler

/-- The target of `haltRun` after the questions, with the command, and after `resumeRun`. -/
def askedTarget : Config := endState step asksOnlyStep (targetState anyStep haltRun) askRun

def resumedTarget : Config := (step askedTarget (.usb [4, 3, 0, 0])).getD askedTarget

def runningTarget : Config := endState step insideStep resumedTarget resumeRun

theorem halt_transparent_resume :
    runningTarget.line = .outside ∧ askedTarget.Halted ∧
      askedTarget.dev.bare = (targetState anyStep haltRun).dev.bare ∧
      resumeRun.countP Event.isHandler ≤ 11 ∧
      ∃ m, runningTarget.dev.bare = { (targetState anyStep haltRun).dev.bare with mon := m } ∧
        m.gHaltState = (if resumeRun.countP Event.isHandler < resumeDelay askedTarget.line then
          (targetState anyStep haltRun).dev.mon.gHaltState else .running) ∧
        (runningTarget.line = .outside → m.gHaltState = .running ∧ m.gCmdQueue.toList = [] ∧
          m.monStep = false ∧ m.monPend = false) := by
  have hhalted : (targetState anyStep haltRun).Halted :=
    ⟨by decide +kernel, by decide +kernel, by decide +kernel⟩
  have hstep : step askedTarget (.usb [4, 3, 0, 0]) = some resumedTarget := by
    have hsome : (step askedTarget (.usb [4, 3, 0, 0])).isSome = true := by decide +kernel
    obtain ⟨c, hc⟩ := Option.isSome_iff_exists.mp hsome
    unfold resumedTarget
    rw [hc, Option.getD_some]
  have hasked : (runChecked step asksOnlyStep (targetState anyStep haltRun)
      ([] ++ askRun)).isSome = true := by decide +kernel
  have hbefore : Run step asksOnlyStep (targetState anyStep haltRun) askRun askedTarget :=
    Run.of_segment hasked
  have hresumed : (runChecked step insideStep resumedTarget ([] ++ resumeRun)).isSome = true := by
    decide +kernel
  have hafter : Run step insideStep resumedTarget resumeRun runningTarget :=
    Run.of_segment hresumed
  exact ⟨by decide +kernel, halt_transparent hhalted hbefore ⟨rfl, rfl⟩ hstep hafter⟩

end BluePill
