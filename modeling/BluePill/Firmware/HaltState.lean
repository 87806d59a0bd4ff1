import BluePill.Firmware.MonitorRules
import BluePill.Firmware.Replies

/-! The halt state reported to the host: `gHaltState` against what the monitor is doing, at
every statement of `DebugHandler` and over all runs. -/
namespace BluePill
open Lib

/-- Outside the handler the core runs freely, or the monitor is about to be entered again. -/
def Monitor.FreeRunning (m : Monitor) : Prop := m.monStep = false ∧ m.monPend = false

/-- The halt state at each statement of the handler. -/
def haltStateAt (m : Monitor) : Line → Prop
  | .outside | .leave => m.FreeRunning → m.gHaltState = .running
  | .clearMonPend | .allowTransfer => m.monStep = true
  | .reqClearPend | .reqTestEmpty => False
  -- with nothing queued the first round would wait
  | .declareCmd | .get => m.gHaltState ≠ .running ∨ m.gCmdQueue.toList ≠ []
  | .wfi => m.gHaltState ≠ .running
  | .startClearPend s => s = .firmware → m.monStep = true
  | .finalTestEmpty | .finalClearPend => m.gHaltState = .running
  | _ => True

theorem haltStateAt_requested {m m' : Monitor} {l : Line} (h : haltStateAt m l)
    (hreq : m.Requested m') : haltStateAt m' l := by
  obtain ⟨q, params, cs, pend, heq, -, -, hpend⟩ := hreq
  rcases hpend with rfl | ⟨rfl, hq⟩
  · exact h
  · rw [heq]
    cases l
    case outside | leave => exact fun hfree => absurd hfree.2 (by simp)
    case declareCmd | get => exact .inr hq
    all_goals exact h

theorem haltStateAt_handler (l : Line) (d : Device) (hreq : d.mon.monReq = false)
    (h : haltStateAt d.mon l) : haltStateAt (debugHandler l d).2.mon (debugHandler l d).1 := by
  cases l
  -- the ways out of the handler
  case armMonStep => rfl
  case clearMonPend | allowTransfer => exact fun hfree => absurd (hfree.1.symm.trans h) (by decide)
  case startSetRunning => exact fun _ => rfl
  case finalTestEmpty =>
    simp only [debugHandler]
    split_ifs
    · exact h
    · exact fun _ => h
  case finalClearPend => exact fun _ => h
  case outside | leave => exact h
  case reqClearPend | reqTestEmpty => exact h.elim
  -- the first round of the command loop
  case testMonReq =>
    simp only [debugHandler, hreq, Bool.false_eq_true, if_false]
    trivial
  case testEmpty =>
    simp only [debugHandler, CircularBuffer.isEmpty_eq, List.isEmpty_iff]
    split_ifs with hempty
    · trivial
    · exact .inr hempty
  case setBreakpoint => exact .inl (by simp [debugHandler])
  case declareCmd => exact h
  case get =>
    simp only [debugHandler, CircularBuffer.get_eq]
    rcases hget : d.mon.gCmdQueue.toList.head? with _ | c
    · exact h.resolve_right (not_not_intro (List.head?_eq_none_iff.mp hget))
    · trivial
  case loopTest =>
    simp only [debugHandler]
    split_ifs with hrun
    · exact .inl hrun
    · exact not_not.mp hrun
  -- `MON_STEP` before `MON_PEND` is cleared
  case setXpsr s =>
    simp only [debugHandler]
    split_ifs with hs
    · exact fun hf => by simp [hs] at hf
    · trivial
  case startSetMonStep s => exact fun _ => rfl
  case startClearPend s =>
    simp only [debugHandler]
    split_ifs with hs
    · exact h hs
    · trivial
  -- no assertion at the next statement
  case switch =>
    simp only [debugHandler, caseOf]
    rcases d.mon.cmd <;> trivial
  case pull c => rcases c <;> trivial
  case testInterrupt | irqTestStep | irqTestBkpt | irqTestOne | irqTestExit | threadTestTwo
      | threadTestThree | threadTestExit | stepTestContext | testContext s
      | disableUserInterrupts s | testResetAddress | testResetCmd | setSp s =>
    simp only [debugHandler]
    split_ifs <;> trivial
  all_goals trivial

theorem haltState_kept (ok : Config → Event → Prop) :
    Kept ok fun l m => m.monReq = false ∧ haltStateAt m l :=
  (monReq_kept ok).under {
    usb := fun _ _ _ h _ hserved => haltStateAt_requested h hserved
    enter := fun _ _ _ _ _ _ => trivial
    handler := fun c h _ hok => haltStateAt_handler c.line c.dev hok.2 h
    thread := by
      intro c l h _ _ _ _
      obtain ⟨m, params, irq19, irq20, hserved, heq⟩ := threadStep_requested l c.dev
      have hm : haltStateAt m .outside := haltStateAt_requested h hserved
      rw [heq]
      exact hm
    user := by
      intro c a h _ _ _
      cases a with
      | store mem => exact h
      | breakpoint => exact h
      | fault => exact fun hfree => absurd hfree.1 (by simp [userStep])
      | sysCallReset => exact haltStateAt_requested h (sysCallReset_requested c.dev) }

theorem targetRun_haltState {ok : Config → Event → Prop} {mem : ℕ → UInt8} {symbols : Symbols}
    {es : List Event} {c : Config} (h : TargetRun ok mem symbols es c) :
    haltStateAt c.dev.mon c.line :=
  ((haltState_kept ok).run (c := .initial mem symbols) ⟨rfl, fun _ => rfl⟩ h).2

/-- While the handler waits the state is not `Running`; when it has returned and nothing is
armed the state is `Running`; and that is what a `GetState` packet is told in both cases. -/
theorem gHaltState_truthful {mem : ℕ → UInt8} {symbols : Symbols} {es : List Event} {c : Config}
    (hrun : TargetRun anyStep mem symbols es c) :
    (c.line = .wfi → c.dev.mon.gHaltState ≠ .running) ∧
    (c.line = .outside → c.dev.mon.monStep = false → c.dev.mon.monPend = false →
      c.dev.mon.gHaltState = .running) ∧
    ∀ x y rest, rest.length ≤ 60 → c.dev.inEndpoint = none →
      ∃ d state, usbDataOutCallback (4 :: 5 :: x :: y :: rest) c.dev = .ok d ∧
        d.inEndpoint = some [4, 5, state, 0] ∧
        (c.line = .wfi → state ≠ ResetHaltState.running.toByte) ∧
        (c.line = .outside → c.dev.mon.monStep = false → c.dev.mon.monPend = false →
          state = ResetHaltState.running.toByte) := by
  have hstate := targetRun_haltState hrun
  have hwait : c.line = .wfi → c.dev.mon.gHaltState ≠ .running := by
    intro hline
    rw [hline] at hstate
    exact hstate
  have hfree : c.line = .outside → c.dev.mon.monStep = false → c.dev.mon.monPend = false →
      c.dev.mon.gHaltState = .running := by
    intro hline hstep hpend
    rw [hline] at hstate
    exact hstate ⟨hstep, hpend⟩
  refine ⟨hwait, hfree, fun x y rest hlen hnone => ?_⟩
  obtain ⟨d, hd, -, hreply⟩ := usbDataOutCallback_getState x y rest c.dev hlen
  rw [hnone, Option.getD_none] at hreply
  refine ⟨d, c.dev.mon.gHaltState.toByte, hd, hreply, fun hline => ?_, fun hline hs hp => ?_⟩
  · have hne := hwait hline
    revert hne
    cases c.dev.mon.gHaltState <;> decide
  · rw [hfree hline hs hp]

/-- A host that halts the target; the handler waits for the next command. -/
def haltRun : List Event :=
  .usb [4, 1, 0, 0] :: .collect :: .enter threadRegs :: List.replicate 14 .handler

/-- It resumes the target, which runs freely. -/
def freeRun : List Event :=
  haltRun ++ .usb [4, 3, 0, 0] :: .collect :: List.replicate 11 .handler

/-- The host is not told `Running` after `haltRun`, and nothing else after `freeRun`. -/
theorem gHaltState_truthful_haltRun :
    ((targetState anyStep haltRun).line = .wfi ∧
      (targetState anyStep haltRun).dev.mon.gHaltState ≠ .running ∧
      ∃ d state, usbDataOutCallback [4, 5, 0, 0] (targetState anyStep haltRun).dev = .ok d ∧
        d.inEndpoint = some [4, 5, state, 0] ∧ state ≠ ResetHaltState.running.toByte) ∧
    (targetState anyStep freeRun).line = .outside ∧
      (targetState anyStep freeRun).dev.mon.gHaltState = .running ∧
      ∃ d state, usbDataOutCallback [4, 5, 0, 0] (targetState anyStep freeRun).dev = .ok d ∧
        d.inEndpoint = some [4, 5, state, 0] ∧ state = ResetHaltState.running.toByte := by
  constructor
  · have hline : (targetState anyStep haltRun).line = .wfi := by decide +kernel
    have hrun : TargetRun anyStep blankMemory bootSymbols haltRun (targetState anyStep haltRun) :=
      targetState_run [] haltRun (by decide +kernel)
    obtain ⟨hwaits, -, hreply⟩ := gHaltState_truthful hrun
    obtain ⟨d, state, hd, hin, hstate, -⟩ := hreply 0 0 [] (by decide) (by decide +kernel)
    exact ⟨hline, hwaits hline, d, state, hd, hin, hstate hline⟩
  · have hline : (targetState anyStep freeRun).line = .outside := by decide +kernel
    have hstep : (targetState anyStep freeRun).dev.mon.monStep = false := by decide +kernel
    have hpend : (targetState anyStep freeRun).dev.mon.monPend = false := by decide +kernel
    have hrun : TargetRun anyStep blankMemory bootSymbols freeRun (targetState anyStep freeRun) :=
      targetState_run [] freeRun (by decide +kernel)
    obtain ⟨-, hfree, hreply⟩ := gHaltState_truthful hrun
    obtain ⟨d, state, hd, hin, -, hstate⟩ := hreply 0 0 [] (by decide) (by decide +kernel)
    exact ⟨hline, hfree hline hstep hpend, d, state, hd, hin, hstate hline hstep hpend⟩

end BluePill
