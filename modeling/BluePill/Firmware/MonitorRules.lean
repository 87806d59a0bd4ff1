import BluePill.Firmware.Machine
import BluePill.Firmware.PacketEffect

/-! The invariant rule of the monitor: what one event of the target can do to the line of
`DebugHandler` and to the monitor state, once for all invariants. -/
namespace BluePill
open Lib

def Monitor.serve (m : Monitor) : Request → Monitor
  | .halt => (m.request .halt).2
  | .resume step => (m.request (if step then .resumeStep else .resume)).2
  | .startFirmware => (m.request .startFirmware).2
  | .startLocalLoop => (m.request .startLocalLoop).2
  | .startEraseLoop address size =>
    ({ m with gEraseParams := (m.gEraseParams.put ⟨address, size⟩).2 }.request .startEraseLoop).2

theorem serve_mon (d : Device) (r : Request) : (d.serve r).mon = d.mon.serve r := by
  cases r <;> rfl

theorem foldl_serve_mon (d : Device) (rs : List Request) :
    (rs.foldl Device.serve d).mon = rs.foldl Monitor.serve d.mon := by
  induction rs generalizing d with
  | nil => rfl
  | cons r rs ih => rw [List.foldl_cons, List.foldl_cons, ih, serve_mon]

/-- All that complete requests can have done to the monitor: both queues grow at their end,
what was accepted is on record, and after any request `MON_PEND` is set and work is queued. -/
def Monitor.Requested (m m' : Monitor) : Prop :=
  ∃ q params cs pend, m' = { m with
      gCmdQueue := q
      gEraseParams := params
      events := m.events ++ cs.map .accepted
      monPend := pend } ∧
    q.toList = m.gCmdQueue.toList ++ cs ∧ m.gEraseParams.toList <+: params.toList ∧
    (m' = m ∨ (pend = true ∧ q.toList ≠ []))

theorem Monitor.Requested.refl (m : Monitor) : m.Requested m :=
  ⟨m.gCmdQueue, m.gEraseParams, [], m.monPend, by simp, by simp, List.prefix_rfl, .inl rfl⟩

theorem Monitor.Requested.trans {m₁ m₂ m₃ : Monitor} (h : m₁.Requested m₂)
    (h' : m₂.Requested m₃) : m₁.Requested m₃ := by
  obtain ⟨q, params, cs, pend, hm₂, hq, hp, hpend⟩ := h
  obtain ⟨q', params', cs', pend', hm₃, hq', hp', hpend'⟩ := h'
  refine ⟨q', params', cs ++ cs', pend', ?_, ?_, ?_, ?_⟩
  · rw [hm₃, hm₂]
    simp
  · rw [hq', hm₂, ← List.append_assoc, ← hq]
  · rw [hm₂] at hp'
    exact hp.trans hp'
  · rcases hpend' with rfl | hpend'
    · rcases hpend with rfl | hpend
      · exact .inl rfl
      · have hpend₃ : m₃.monPend = pend := by rw [hm₂]
        have hq₃ : m₃.gCmdQueue = q := by rw [hm₂]
        have hpend₃' : m₃.monPend = pend' := by rw [hm₃]
        have hq₃' : m₃.gCmdQueue = q' := by rw [hm₃]
        rw [← hpend₃, hpend₃', ← hq₃, hq₃'] at hpend
        exact .inr hpend
    · exact .inr hpend'

/-- Requests do not touch what thread mode executes, the mask of the USB, nor `MON_REQ`. -/
theorem Monitor.Requested.frame {m m' : Monitor} (h : m.Requested m') :
    m'.thread = m.thread ∧ m'.irq20 = m.irq20 ∧ m'.monReq = m.monReq := by
  obtain ⟨q, params, cs, pend, rfl, -⟩ := h
  exact ⟨rfl, rfl, rfl⟩

theorem request_requested (m : Monitor) (c : DebugHandlerCommand)
    (params : CircularBuffer FlashEraseParams 4)
    (hp : m.gEraseParams.toList <+: params.toList) :
    m.Requested ({ m with gEraseParams := params }.request c).2 := by
  have hput := CircularBuffer.toList_put m.gCmdQueue c
  have hfst := CircularBuffer.put_fst m.gCmdQueue c
  by_cases hroom : m.gCmdQueue.toList.length + 1 < 16
  · rw [if_pos hroom] at hput
    rw [decide_eq_true hroom] at hfst
    refine ⟨(m.gCmdQueue.put c).2, params, [c], true, ?_, hput, hp, .inr ⟨rfl, ?_⟩⟩
    · simp [Monitor.request, hfst]
    · rw [hput]
      simp
  · rw [if_neg hroom] at hput
    rw [decide_eq_false hroom] at hfst
    refine ⟨(m.gCmdQueue.put c).2, params, [], true, ?_, by simpa using hput, hp, .inr ⟨rfl, ?_⟩⟩
    · simp [Monitor.request, hfst]
    · intro hnil
      rw [← hput, hnil] at hroom
      simp at hroom

theorem serve_requested (m : Monitor) (r : Request) : m.Requested (m.serve r) := by
  cases r with
  | startEraseLoop address size =>
    exact request_requested m _ _ (CircularBuffer.toList_prefix_put _ _)
  | halt => exact request_requested m _ m.gEraseParams List.prefix_rfl
  | resume step => exact request_requested m _ m.gEraseParams List.prefix_rfl
  | startFirmware => exact request_requested m _ m.gEraseParams List.prefix_rfl
  | startLocalLoop => exact request_requested m _ m.gEraseParams List.prefix_rfl

theorem foldl_serve_requested (m : Monitor) (rs : List Request) :
    m.Requested (rs.foldl Monitor.serve m) := by
  induction rs generalizing m with
  | nil => exact .refl m
  | cons r rs ih => exact (serve_requested m r).trans (ih _)

theorem PacketEffect.requested {d d' : Device} (h : PacketEffect d d') :
    d.mon.Requested d'.mon := by
  cases h with
  | requests rs hmon =>
    rw [hmon, foldl_serve_mon]
    exact foldl_serve_requested _ _
  | programs _ hmon =>
    rw [hmon]
    exact .refl _

/-- A statement of `flashEraseLoop` makes a request at most, besides what it does to its own
queue, to the interrupt masks and to its place in the loop. -/
theorem threadStep_requested (l : EraseLine) (d : Device) :
    ∃ m params irq19 irq20, d.mon.Requested m ∧ (threadStep l d).mon = { m with
      gEraseParams := params
      irq19 := irq19
      irq20 := irq20
      thread := .eraseLoop (flashEraseLoop l d).1
      stepTaken := d.mon.monStep } := by
  cases l
  case pull =>
    simp only [threadStep, flashEraseLoop]
    rcases d.mon.gEraseParams.pull with ⟨_ | p, q⟩ <;> exact ⟨d.mon, _, _, _, .refl _, rfl⟩
  case erasePage p cur erase => cases erase <;> exact ⟨d.mon, _, _, _, .refl _, rfl⟩
  case startLocalLoop =>
    exact ⟨_, _, _, _, serve_requested d.mon .startLocalLoop, rfl⟩
  all_goals exact ⟨d.mon, _, _, _, .refl _, rfl⟩

theorem threadStep_monReq (l : EraseLine) (d : Device) :
    (threadStep l d).mon.monReq = d.mon.monReq := by
  obtain ⟨m, params, irq19, irq20, hserved, heq⟩ := threadStep_requested l d
  rw [heq]
  exact hserved.frame.2.2

theorem sysCallReset_requested (d : Device) :
    d.mon.Requested (userStep .sysCallReset d).mon :=
  (serve_requested d.mon .startFirmware).trans (serve_requested _ (.resume false))

theorem userStep_frame (a : UserAction) (d : Device) :
    (userStep a d).mon.thread = d.mon.thread ∧ (userStep a d).mon.irq20 = d.mon.irq20 ∧
      (userStep a d).mon.monReq = d.mon.monReq := by
  cases a with
  | store mem => exact ⟨rfl, rfl, rfl⟩
  | breakpoint => exact ⟨rfl, rfl, rfl⟩
  | fault => exact ⟨rfl, rfl, rfl⟩
  | sysCallReset => exact (sysCallReset_requested d).frame

/-- `MON_REQ` is not written by the bootloader. -/
theorem debugHandler_monReq (l : Line) (d : Device) :
    (debugHandler l d).2.mon.monReq = d.mon.monReq := by
  cases l
  case get =>
    simp only [debugHandler]
    rcases d.mon.gCmdQueue.get with _ | c <;> rfl
  all_goals rfl

/-- Thread mode is sent to other code by one statement of the handler. -/
theorem debugHandler_thread {l : Line} (d : Device) (hl : ∀ s, l ≠ .setPc s) :
    (debugHandler l d).2.mon.thread = d.mon.thread := by
  cases l
  case setPc s => exact absurd rfl (hl s)
  case get =>
    simp only [debugHandler]
    rcases d.mon.gCmdQueue.get with _ | c <;> rfl
  all_goals rfl

/-- The handler sends thread mode into the erase loop at its first statement only. -/
theorem debugHandler_eraseLoop {l : Line} {d : Device} {e : EraseLine}
    (h : (debugHandler l d).2.mon.thread = .eraseLoop e) :
    e = .disableIrq19 ∨ d.mon.thread = .eraseLoop e := by
  by_cases hl : ∃ s, l = .setPc s
  · obtain ⟨s, rfl⟩ := hl
    cases s with
    | eraseLoop => exact Or.inl (ThreadCode.eraseLoop.inj h).symm
    | localLoop | firmware => cases h
  · rw [debugHandler_thread d fun s hs => hl ⟨s, hs⟩] at h
    exact Or.inr h

/-- `P` is kept by every event that meets `ok`: one obligation for each kind of event. -/
structure Kept (ok : Config → Event → Prop) (P : Line → Monitor → Prop) : Prop where
  usb : ∀ c packet m, P c.line c.dev.mon → ok c (.usb packet) → c.dev.mon.Requested m → P c.line m
  enter : ∀ c regs, P .outside c.dev.mon → c.line = .outside → ok c (.enter regs) →
    c.dev.mon.canEnter regs → P .testInterrupt (enterHandler c.dev regs).mon
  handler : ∀ c, P c.line c.dev.mon → c.line ≠ .outside → ok c .handler →
    P (debugHandler c.line c.dev).1 (debugHandler c.line c.dev).2.mon
  thread : ∀ c l, P .outside c.dev.mon → c.line = .outside → ok c .thread →
    c.dev.mon.thread = .eraseLoop l → c.dev.mon.threadRuns → P .outside (threadStep l c.dev).mon
  user : ∀ c a, P .outside c.dev.mon → c.line = .outside → ok c (.user a) →
    c.dev.mon.thread = .user → P .outside (userStep a c.dev).mon

/-- What an event can do, guards included. -/
theorem step_cases {c c' : Config} {e : Event} (h : step c e = some c') :
    (∃ packet, e = .usb packet ∧ c.dev.mon.irq20 = true ∧ c'.line = c.line ∧
      usbDataOutCallback packet c.dev = .ok c'.dev) ∨
    (e = .collect ∧ c' = { c with dev := { c.dev with inEndpoint := none } }) ∨
    (∃ regs, e = .enter regs ∧ c.line = .outside ∧ c.dev.mon.canEnter regs = true ∧
      c' = ⟨.testInterrupt, enterHandler c.dev regs⟩) ∨
    (e = .handler ∧ c.line ≠ .outside ∧
      c' = ⟨(debugHandler c.line c.dev).1, (debugHandler c.line c.dev).2⟩) ∨
    (∃ l, e = .thread ∧ c.line = .outside ∧ c.dev.mon.thread = .eraseLoop l ∧
      c.dev.mon.threadRuns = true ∧ c' = { c with dev := threadStep l c.dev }) ∨
    (∃ a, e = .user a ∧ c.line = .outside ∧ c.dev.mon.thread = .user ∧
      c' = { c with dev := userStep a c.dev }) := by
  cases e with
  | usb packet =>
    rw [step] at h
    split at h
    next hirq =>
      split at h
      next d hd =>
        obtain rfl := Option.some.inj h
        exact .inl ⟨packet, rfl, hirq, rfl, hd⟩
      next => cases h
    next => cases h
  | collect => exact .inr (.inl ⟨rfl, (Option.some.inj h).symm⟩)
  | enter regs =>
    rw [step] at h
    split at h
    next hc =>
      exact .inr (.inr (.inl ⟨regs, rfl, hc.1, hc.2, (Option.some.inj h).symm⟩))
    next => cases h
  | handler =>
    rw [step] at h
    split at h
    next => cases h
    next hc => exact .inr (.inr (.inr (.inl ⟨rfl, hc, (Option.some.inj h).symm⟩)))
  | thread =>
    rw [step] at h
    split at h
    next l hl =>
      split at h
      next hc =>
        exact .inr (.inr (.inr (.inr (.inl
          ⟨l, rfl, hc.1, hl, hc.2, (Option.some.inj h).symm⟩))))
      next => cases h
    next => cases h
  | user a =>
    rw [step] at h
    split at h
    next hc =>
      exact .inr (.inr (.inr (.inr (.inr ⟨a, rfl, hc.1, hc.2, (Option.some.inj h).symm⟩))))
    next => cases h

section

variable {ok : Config → Event → Prop} {P : Line → Monitor → Prop} {c c' : Config}

theorem Kept.step (hP : Kept ok P) {e : Event} (h : P c.line c.dev.mon) (hok : ok c e)
    (hs : step c e = some c') : P c'.line c'.dev.mon := by
  rcases step_cases hs with ⟨packet, rfl, _, hline, hd⟩ | ⟨rfl, rfl⟩ | ⟨regs, rfl, hline, hen, rfl⟩ |
    ⟨rfl, hline, rfl⟩ | ⟨l, rfl, hline, hthread, hruns, rfl⟩ | ⟨a, rfl, hline, hthread, rfl⟩
  · rw [hline]
    exact hP.usb c packet _ h hok (usbDataOutCallback_effect hd).requested
  · exact h
  · exact hP.enter c regs (hline ▸ h) hline hok hen
  · exact hP.handler c h hline hok
  · have := hP.thread c l (hline ▸ h) hline hok hthread hruns
    rwa [← hline] at this
  · have := hP.user c a (hline ▸ h) hline hok hthread
    rwa [← hline] at this

/-- A kept predicate may be used to show another one kept. -/
theorem Kept.under {Q : Line → Monitor → Prop} (hQ : Kept ok Q)
    (hP : Kept (fun c e => ok c e ∧ Q c.line c.dev.mon) P) : Kept ok fun l m => Q l m ∧ P l m where
  usb := fun c packet m h hok hserved =>
    ⟨hQ.usb c packet m h.1 hok hserved, hP.usb c packet m h.2 ⟨hok, h.1⟩ hserved⟩
  enter := fun c regs h hline hok hen =>
    ⟨hQ.enter c regs h.1 hline hok hen, hP.enter c regs h.2 hline ⟨hok, hline ▸ h.1⟩ hen⟩
  handler := fun c h hline hok =>
    ⟨hQ.handler c h.1 hline hok, hP.handler c h.2 hline ⟨hok, h.1⟩⟩
  thread := fun c l h hline hok hthread hruns =>
    ⟨hQ.thread c l h.1 hline hok hthread hruns,
      hP.thread c l h.2 hline ⟨hok, hline ▸ h.1⟩ hthread hruns⟩
  user := fun c a h hline hok hthread =>
    ⟨hQ.user c a h.1 hline hok hthread, hP.user c a h.2 hline ⟨hok, hline ▸ h.1⟩ hthread⟩

/-- `MON_REQ` stays clear. -/
theorem monReq_kept (ok : Config → Event → Prop) : Kept ok fun _ m => m.monReq = false where
  usb := fun _ _ _ h _ hserved => hserved.frame.2.2.trans h
  enter := fun _ _ h _ _ _ => h
  handler := fun c h _ _ => (debugHandler_monReq c.line c.dev).trans h
  thread := fun c l h _ _ _ _ => (threadStep_monReq l c.dev).trans h
  user := fun c a h _ _ _ => (userStep_frame a c.dev).2.2.trans h

/-- Kept by every event, it is kept by every run. -/
theorem Kept.run (hP : Kept ok P) {es : List Event} (h : P c.line c.dev.mon)
    (hrun : Run BluePill.step ok c es c') : P c'.line c'.dev.mon :=
  hrun.invariant h fun _ _ _ h hok hs => hP.step h hok hs

end

/-- An interrupted context in thread mode, and one in the handler of exception 16. -/
def threadRegs : Vector UInt32 17 := Vector.replicate 17 0

def interruptRegs : Vector UInt32 17 := Vector.ofFn fun i => if i.val = 16 then 16 else 0

def blankMemory : ℕ → UInt8 := fun _ => 0xFF

def bootSymbols : Symbols := ⟨0x08000101, 0x08000201⟩

/-- A run from reset on blank memory, given by its events. -/
theorem targetRun_of_events (es : List Event) {α : Type} {f : Config → α} {v : α}
    (h : (runEvents step (.initial blankMemory bootSymbols) es).map f = some v) :
    ∃ c, TargetRun anyStep blankMemory bootSymbols es c ∧ f c = v := by
  obtain ⟨c, hc, hf⟩ := Option.map_eq_some_iff.mp h
  exact ⟨c, .of_runEvents hc, hf⟩

theorem targetRun_of_checked (ok : Config → Event → Prop) [∀ c e, Decidable (ok c e)]
    (es : List Event) {α : Type} {f : Config → α} {v : α}
    (h : (runChecked step ok (.initial blankMemory bootSymbols) es).map f = some v) :
    ∃ c, TargetRun ok blankMemory bootSymbols es c ∧ f c = v := by
  obtain ⟨c, hc, hf⟩ := Option.map_eq_some_iff.mp h
  exact ⟨c, .of_runChecked hc, hf⟩

/-- The target after the events `es` from reset. -/
def targetState (ok : Config → Event → Prop) [∀ c e, Decidable (ok c e)] (es : List Event) :
    Config := endState step ok (.initial blankMemory bootSymbols) es

theorem targetState_run {ok : Config → Event → Prop} [∀ c e, Decidable (ok c e)]
    (es fs : List Event)
    (h : (runChecked step ok (.initial blankMemory bootSymbols) (es ++ fs)).isSome = true) :
    Run step ok (targetState ok es) fs (targetState ok (es ++ fs)) := .of_segment h

end BluePill
