import BluePill.Firmware.MonitorRules

/-! The automaton that steps out of interrupts: `stepOnThread`, `exitFromInterrupt` and
`BASEPRI` at every statement of `DebugHandler`, over all runs. -/
namespace BluePill
open Lib

/-- The variables of the automaton, and the halt state that ends the command loop. -/
structure StepVars where
  stepOnThread : ℕ
  exitFromInterrupt : Bool
  basepri : ℕ
  gHaltState : ResetHaltState

def Monitor.stepVars (m : Monitor) : StepVars :=
  ⟨m.stepOnThread, m.exitFromInterrupt, m.basepri, m.gHaltState⟩

namespace StepVars

/-- `BASEPRI` masks user interrupts exactly while a step is being taken out of an interrupt,
and then the handler leaves interrupt entries at once. -/
structure Coherent (v : StepVars) : Prop where
  range : v.stepOnThread ≤ 3
  masked : v.stepOnThread = 2 ∨ v.stepOnThread = 3 → v.basepri = 0x30 ∧ v.exitFromInterrupt = true
  unmasked : ¬ (v.stepOnThread = 2 ∨ v.stepOnThread = 3) → v.basepri = 0

/-- No step is under way. -/
structure Settled (v : StepVars) : Prop where
  step : v.stepOnThread = 0
  exit : v.exitFromInterrupt = false
  basepri : v.basepri = 0

theorem Settled.coherent {v : StepVars} (h : v.Settled) : v.Coherent where
  range := by simp [h.step]
  masked := by simp [h.step]
  unmasked := fun _ => h.basepri

end StepVars

/-- The statements between the assignments of one transition of the automaton. -/
def Line.midTransition : Line → Bool
  | .irqClearExit | .irqClearMonStep | .irqClearBasepri | .irqSetExit | .irqSetBasepri
  | .threadClearBasepri => true
  | _ => false

/-- The automaton at each statement of the handler. -/
def stepOverAt (v : StepVars) : Line → Prop
  | .outside | .testInterrupt | .irqTestStep | .irqTestBkpt | .irqClearStep | .irqTestOne
  | .threadTestTwo | .armMonStep | .clearMonPend | .leave => v.Coherent
  | .irqClearExit => v.stepOnThread = 0
  | .irqClearMonStep | .irqClearBasepri => v.stepOnThread = 0 ∧ v.exitFromInterrupt = false
  | .irqSetTwo => v.Coherent ∧ v.stepOnThread = 1
  | .irqSetExit => v.stepOnThread = 2
  | .irqSetBasepri => v.stepOnThread = 2 ∧ v.exitFromInterrupt = true
  | .irqTestExit => v.Coherent ∧ v.stepOnThread ≠ 1
  | .threadSetThree => v.Coherent ∧ v.stepOnThread = 2
  | .threadTestThree => v.Coherent ∧ v.stepOnThread ≠ 2
  | .threadClearStep => v.Coherent ∧ v.stepOnThread = 3
  | .threadClearBasepri => v.stepOnThread = 0
  | .threadTestExit | .threadClearMonStep | .threadClearExit =>
    v.Coherent ∧ v.stepOnThread ≤ 1
  | .clearStep => v.Coherent ∧ v.stepOnThread ≤ 1 ∧ v.exitFromInterrupt = false
  | .stepClearBkpt | .stepSetMonStep | .stepClearPend | .loopSetRunning | .finalTestEmpty
  | .finalClearPend => v.Coherent ∧ v.exitFromInterrupt = false ∧ v.stepOnThread ≤ 1
  -- a step that has just been ordered ends the loop
  | .loopTest => v.Coherent ∧ v.exitFromInterrupt = false ∧ v.stepOnThread ≤ 1 ∧
      (v.gHaltState ≠ .running → v.stepOnThread = 0)
  | _ => v.Settled

theorem StepVars.Settled.stepOrdered {v : StepVars} (h : v.Settled) :
    v.Coherent ∧ v.exitFromInterrupt = false ∧ v.stepOnThread ≤ 1 :=
  ⟨h.coherent, h.exit, by simp [h.step]⟩

theorem StepVars.Settled.loopTest {v : StepVars} (h : v.Settled) : stepOverAt v .loopTest :=
  ⟨h.coherent, h.exit, by simp [h.step], fun _ => h.step⟩

theorem stepOverAt_coherent {v : StepVars} {l : Line} (hmid : l.midTransition = false)
    (h : stepOverAt v l) : v.Coherent := by
  cases l
  case irqClearExit | irqClearMonStep | irqClearBasepri | irqSetExit | irqSetBasepri
      | threadClearBasepri => exact absurd hmid (by decide)
  all_goals first | exact h | exact h.1 | exact h.coherent

theorem stepOverAt_handler (l : Line) (d : Device) (h : stepOverAt d.mon.stepVars l) :
    stepOverAt (debugHandler l d).2.mon.stepVars (debugHandler l d).1 := by
  cases l
  -- the branches of the prologue
  case testInterrupt | irqTestStep | irqTestBkpt | testMonReq =>
    simp only [debugHandler, stepOverAt] at h ⊢
    split_ifs <;> exact h
  case irqTestOne | threadTestTwo | threadTestThree | irqTestExit | threadTestExit =>
    simp only [debugHandler, stepOverAt, Monitor.stepVars] at h ⊢
    split_ifs <;> grind [StepVars.Coherent]
  case testEmpty | reqTestEmpty =>
    simp only [debugHandler, stepOverAt] at h ⊢
    split_ifs
    · first | exact h | exact h.coherent
    · exact h
  -- the assignments to the variables of the automaton
  case irqClearStep | irqSetTwo | threadClearStep => rfl
  case irqClearExit | irqClearMonStep | irqClearBasepri | irqSetExit | irqSetBasepri
      | threadSetThree | threadClearBasepri | threadClearMonStep | threadClearExit | clearStep
      | stepSetOne | deferExit =>
    simp only [debugHandler, stepOverAt, Monitor.stepVars] at h ⊢
    grind [StepVars.Coherent, StepVars.Settled]
  -- the command loop
  case get =>
    simp only [debugHandler]
    rcases d.mon.gCmdQueue.get with _ | c <;> exact h
  case switch =>
    simp only [debugHandler, caseOf]
    rcases d.mon.cmd <;> exact h
  case pull c => rcases c <;> exact h
  case wfi => exact h.loopTest
  case haltSetRequest =>
    have hs : stepOverAt d.mon.stepVars .loopTest := h.loopTest
    exact ⟨⟨hs.1.1, hs.1.2, hs.1.3⟩, hs.2.1, hs.2.2.1, fun _ => h.step⟩
  case resumeClearMonStep => exact h.stepOrdered
  case stepTestContext =>
    simp only [debugHandler, stepOverAt] at h ⊢
    split_ifs
    · exact h.stepOrdered
    · exact h
  case loopSetRunning =>
    exact ⟨⟨h.1.range, h.1.masked, h.1.unmasked⟩, h.2.1, h.2.2, fun hne => absurd rfl hne⟩
  case loopTest =>
    simp only [debugHandler, stepOverAt] at h ⊢
    split_ifs with hrun
    · exact ⟨h.2.2.2 hrun, h.2.1, h.1.unmasked (by simp [h.2.2.2 hrun])⟩
    · exact ⟨h.1, h.2.1, h.2.2.1⟩
  case finalTestEmpty =>
    simp only [debugHandler, stepOverAt] at h ⊢
    split_ifs
    · exact h
    · exact h.1
  -- the start of other code
  case testContext s =>
    simp only [debugHandler]
    split_ifs <;> exact h
  case testResetAddress | testResetCmd =>
    simp only [debugHandler]
    split_ifs
    · exact h
    · exact StepVars.Settled.loopTest h
  case disableUserInterrupts s | setSp s | setXpsr s | startClearPend s =>
    simp only [debugHandler]
    split_ifs <;> exact h
  case startSetRunning =>
    exact StepVars.Settled.coherent ⟨h.step, h.exit, h.basepri⟩
  case allowTransfer => exact h.coherent
  case setBreakpoint => exact ⟨h.step, h.exit, h.basepri⟩
  case finalClearPend => exact h.1
  -- statements that do not touch these variables
  all_goals exact h

/-- What the history says about the step ordered last: the context of the last command loop,
whether a step ordered in thread mode is still to end, and whether all earlier ones ended
in thread mode. -/
structure StepHistory where
  loopMode : Option Bool
  pending : Bool
  honest : Bool
  deriving DecidableEq, Repr

def StepHistory.observe (h : StepHistory) : MonitorEvent → StepHistory
  | .accepted _ => h
  | .executed c => if c = .resumeStep then { h with pending := h.loopMode == some false } else h
  | .entered active bkpt => if active && bkpt then { h with pending := false } else h
  | .reachedLoop active => ⟨some active, false, h.honest && !(h.pending && active)⟩

def stepHistory (events : List MonitorEvent) : StepHistory :=
  events.foldl StepHistory.observe ⟨none, false, true⟩

theorem stepHistory_snoc (events : List MonitorEvent) (e : MonitorEvent) :
    stepHistory (events ++ [e]) = (stepHistory events).observe e := by
  simp [stepHistory]

theorem stepHistory_accepted (events : List MonitorEvent) (cs : List DebugHandlerCommand) :
    stepHistory (events ++ cs.map .accepted) = stepHistory events := by
  induction cs using List.reverseRecOn with
  | nil => simp
  | append_singleton cs c ih =>
    rw [List.map_append, ← List.append_assoc, List.map_singleton, stepHistory_snoc, ih]
    rfl

/-- The automaton's variables together with the history of the step. -/
structure StepGhost where
  history : StepHistory
  stepOnThread : ℕ
  interruptActive : Bool
  dfsrBkpt : Bool
  monReq : Bool

def Monitor.stepGhost (m : Monitor) : StepGhost :=
  ⟨stepHistory m.events, m.stepOnThread, m.interruptActive, m.dfsrBkpt, m.monReq⟩

/-- While a step is to end, `stepOnThread` remembers it until the handler is on its way to the
command loop in thread mode. -/
def stepEndsAt (v : StepGhost) : Line → Prop
  | .outside | .irqTestOne | .irqSetTwo | .irqSetExit | .irqSetBasepri | .irqTestExit
  | .threadSetThree | .armMonStep | .clearMonPend | .finalTestEmpty | .finalClearPend
  | .leave => v.history.pending = true → v.stepOnThread ≠ 0
  | .testInterrupt => v.history.pending = true →
      v.stepOnThread ≠ 0 ∧ (v.interruptActive = true → v.dfsrBkpt = false)
  | .irqTestStep | .irqTestBkpt =>
    v.history.pending = true → v.stepOnThread ≠ 0 ∧ v.dfsrBkpt = false
  | .irqClearStep | .irqClearExit | .irqClearMonStep | .irqClearBasepri =>
    v.history.pending = false
  | .threadTestTwo | .threadTestThree | .threadClearStep | .threadClearBasepri | .threadTestExit
  | .threadClearMonStep | .threadClearExit | .clearStep | .testMonReq | .testEmpty
  | .setBreakpoint | .declareCmd => v.history.pending = true → v.interruptActive = false
  | .reqClearPend | .reqTestEmpty => False
  | .stepTestContext => v.history.loopMode = some v.interruptActive ∧
      (v.history.pending = true → v.interruptActive = false)
  | .stepSetOne => v.history.loopMode = some v.interruptActive
  | .stepClearBkpt | .stepSetMonStep | .stepClearPend | .loopSetRunning | .loopTest =>
    v.history.loopMode = some v.interruptActive ∧
      (v.history.pending = true → v.stepOnThread ≠ 0)
  | _ => v.history.loopMode = some v.interruptActive ∧ v.history.pending = false

theorem stepEndsAt_handler (l : Line) (d : Device) (hs : stepOverAt d.mon.stepVars l)
    (hreq : d.mon.monReq = false) (h : stepEndsAt d.mon.stepGhost l) :
    stepEndsAt (debugHandler l d).2.mon.stepGhost (debugHandler l d).1 := by
  cases l
  -- the branches of the prologue
  case testInterrupt | irqTestStep | irqTestBkpt | irqTestOne | threadTestTwo | threadTestThree
      | threadTestExit =>
    simp only [debugHandler, stepEndsAt, Monitor.stepGhost] at h ⊢
    split_ifs <;> simp_all
  case irqTestExit =>
    have hle : d.mon.stepOnThread ≤ 3 := hs.1.range
    have hone : d.mon.stepOnThread ≠ 1 := hs.2
    simp only [debugHandler, stepEndsAt, Monitor.stepGhost] at h ⊢
    split_ifs with hexit
    · exact h
    · intro hp
      have hzero := h hp
      have hmasked : d.mon.stepOnThread = 2 ∨ d.mon.stepOnThread = 3 := by omega
      exact absurd (hs.1.masked hmasked).2 hexit
  case testMonReq =>
    simp only [debugHandler, hreq]
    exact h
  case testEmpty =>
    simp only [debugHandler]
    split_ifs <;> exact h
  -- the assignments to `stepOnThread`
  case irqClearBasepri =>
    have hclear : (stepHistory d.mon.events).pending = false := h
    intro hp
    exact absurd (hclear.symm.trans hp) Bool.false_ne_true
  case irqSetTwo | threadSetThree => exact fun _ => by simp [debugHandler, Monitor.stepGhost]
  -- the command loop
  case declareCmd =>
    simp only [debugHandler, stepEndsAt, Monitor.stepGhost, stepHistory_snoc,
      StepHistory.observe, and_self]
  case get =>
    simp only [debugHandler]
    rcases d.mon.gCmdQueue.get with _ | c <;> exact h
  case switch =>
    simp only [debugHandler, caseOf]
    rcases d.mon.cmd <;> exact h
  case pull c =>
    obtain ⟨hmode, hclear⟩ := h
    cases c
    case resumeStep =>
      simp only [debugHandler, afterPull, stepEndsAt, Monitor.stepGhost, Monitor.pullCmd,
        stepHistory_snoc, StepHistory.observe, if_true]
      refine ⟨hmode, fun hp => ?_⟩
      simpa [Monitor.stepGhost] using hmode.symm.trans (beq_iff_eq.mp hp)
    all_goals
      simp only [debugHandler, afterPull, stepEndsAt, Monitor.stepGhost, Monitor.pullCmd,
        stepHistory_snoc, StepHistory.observe, reduceCtorEq, if_false]
      exact ⟨hmode, hclear⟩
  case resumeClearMonStep | wfi | haltSetRequest =>
    exact ⟨h.1, fun hp => absurd (h.2.symm.trans hp) Bool.false_ne_true⟩
  case stepTestContext =>
    simp only [debugHandler]
    split_ifs with hactive
    · refine ⟨h.1, fun hp => ?_⟩
      have hthread : d.mon.interruptActive = false := h.2 hp
      exact absurd (hthread.symm.trans hactive) Bool.false_ne_true
    · exact h.1
  case stepSetOne => exact ⟨h, fun _ => by simp [debugHandler, Monitor.stepGhost]⟩
  case loopTest =>
    simp only [debugHandler]
    split_ifs with hrun
    · refine ⟨h.1, ?_⟩
      by_contra hp
      exact h.2 (Bool.eq_true_of_not_eq_false hp) (hs.2.2.2 hrun)
    · exact h.2
  case finalTestEmpty =>
    simp only [debugHandler]
    split_ifs <;> exact h
  -- the start of other code
  case testContext s =>
    simp only [debugHandler]
    split_ifs <;> exact h
  case deferExit | startSetRunning | allowTransfer =>
    exact fun hp => absurd (h.2.symm.trans hp) Bool.false_ne_true
  case testResetAddress | testResetCmd =>
    simp only [debugHandler]
    split_ifs
    · exact h
    · exact ⟨h.1, fun hp => absurd (h.2.symm.trans hp) Bool.false_ne_true⟩
  case disableUserInterrupts s | setSp s | setXpsr s | startClearPend s =>
    simp only [debugHandler]
    split_ifs <;> exact h
  -- `MON_REQ` is never set
  case reqClearPend | reqTestEmpty => exact h.elim
  all_goals exact h

/-- The whole invariant of the automaton at one statement. -/
structure StepInvariant (l : Line) (m : Monitor) : Prop where
  vars : stepOverAt m.stepVars l
  noRequest : m.monReq = false
  ends : stepEndsAt m.stepGhost l
  honest : (stepHistory m.events).honest = true

/-- `honest` is decided where the command loop is reached. -/
theorem debugHandler_honest (l : Line) (d : Device) (h : stepEndsAt d.mon.stepGhost l)
    (hh : (stepHistory d.mon.events).honest = true) :
    (stepHistory (debugHandler l d).2.mon.events).honest = true := by
  cases l
  case declareCmd =>
    have hthread : (stepHistory d.mon.events).pending = true → d.mon.interruptActive = false := h
    simp only [debugHandler, stepHistory_snoc, StepHistory.observe, hh]
    rcases hp : (stepHistory d.mon.events).pending
    · rfl
    · simp [hthread hp]
  case get =>
    simp only [debugHandler]
    rcases d.mon.gCmdQueue.get with _ | c <;> exact hh
  case pull c =>
    simp only [debugHandler, Monitor.pullCmd, stepHistory_snoc, StepHistory.observe]
    split_ifs <;> exact hh
  all_goals exact hh

theorem stepInvariant_kept (ok : Config → Event → Prop) : Kept ok StepInvariant where
  usb := by
    rintro c packet m h - ⟨q, params, cs, pend, rfl, -⟩
    refine ⟨h.vars, h.noRequest, ?_, ?_⟩
    · simpa only [Monitor.stepGhost, stepHistory_accepted] using h.ends
    · simpa only [stepHistory_accepted] using h.honest
  enter := by
    rintro c regs h hline - -
    have hends : (stepHistory c.dev.mon.events).pending = true → c.dev.mon.stepOnThread ≠ 0 :=
      h.ends
    refine ⟨h.vars, h.noRequest, ?_, ?_⟩
    · simp only [enterHandler, stepEndsAt, Monitor.stepGhost, stepHistory_snoc,
        StepHistory.observe]
      split_ifs with hbkpt
      · simp
      · intro hp
        refine ⟨hends hp, fun hactive => ?_⟩
        simpa [hactive] using hbkpt
    · simp only [enterHandler, stepHistory_snoc, StepHistory.observe]
      split_ifs <;> exact h.honest
  handler := fun c h _ _ => {
    vars := stepOverAt_handler c.line c.dev h.vars
    noRequest := (debugHandler_monReq c.line c.dev).trans h.noRequest
    ends := stepEndsAt_handler c.line c.dev h.vars h.noRequest h.ends
    honest := debugHandler_honest c.line c.dev h.ends h.honest }
  thread := by
    rintro c l h - - - -
    obtain ⟨m, params, irq19, irq20, ⟨q, p, cs, pend, rfl, -⟩, heq⟩ :=
      threadStep_requested l c.dev
    rw [heq]
    refine ⟨h.vars, h.noRequest, ?_, ?_⟩
    · simpa only [Monitor.stepGhost, stepHistory_accepted] using h.ends
    · simpa only [stepHistory_accepted] using h.honest
  user := by
    rintro c a h - - -
    cases a with
    | store mem => exact h
    | breakpoint => exact ⟨h.vars, h.noRequest, h.ends, h.honest⟩
    | fault => exact ⟨h.vars, h.noRequest, h.ends, h.honest⟩
    | sysCallReset =>
      obtain ⟨q, params, cs, pend, heq, -⟩ := sysCallReset_requested c.dev
      rw [heq]
      refine ⟨h.vars, h.noRequest, ?_, ?_⟩
      · simpa only [Monitor.stepGhost, stepHistory_accepted] using h.ends
      · simpa only [stepHistory_accepted] using h.honest

theorem stepInvariant_initial : StepInvariant .outside Monitor.initial where
  vars := ⟨by decide, by decide, fun _ => rfl⟩
  noRequest := rfl
  ends := fun h => absurd h (by decide)
  honest := rfl

theorem targetRun_stepInvariant {ok : Config → Event → Prop} {mem : ℕ → UInt8}
    {symbols : Symbols} {es : List Event} {c : Config} (h : TargetRun ok mem symbols es c) :
    StepInvariant c.line c.dev.mon :=
  (stepInvariant_kept ok).run stepInvariant_initial h

theorem observe_honest_le (h : StepHistory) (es : List MonitorEvent)
    (hh : (es.foldl StepHistory.observe h).honest = true) : h.honest = true := by
  induction es generalizing h with
  | nil => exact hh
  | cons e es ih =>
    have he := ih _ hh
    cases e with
    | accepted c => exact he
    | executed c =>
      simp only [StepHistory.observe] at he
      split_ifs at he <;> exact he
    | entered active bkpt =>
      simp only [StepHistory.observe] at he
      split_ifs at he <;> exact he
    | reachedLoop active =>
      simp only [StepHistory.observe, Bool.and_eq_true] at he
      exact he.1

theorem observe_loopMode (h : StepHistory) {es : List MonitorEvent}
    (hes : ∀ a, .reachedLoop a ∉ es) :
    (es.foldl StepHistory.observe h).loopMode = h.loopMode := by
  induction es generalizing h with
  | nil => rfl
  | cons e es ih =>
    rw [List.foldl_cons, ih _ fun a ha => hes a (List.mem_cons_of_mem _ ha)]
    cases e with
    | accepted c => rfl
    | executed c =>
      simp only [StepHistory.observe]
      split_ifs <;> rfl
    | entered active bkpt =>
      simp only [StepHistory.observe]
      split_ifs <;> rfl
    | reachedLoop active => exact absurd List.mem_cons_self (hes active)

theorem observe_pending (h : StepHistory) {es : List MonitorEvent}
    (hmode : h.loopMode = some false) (hp : h.pending = true) (hes : ∀ a, .reachedLoop a ∉ es)
    (hbkpt : .entered true true ∉ es) : (es.foldl StepHistory.observe h).pending = true := by
  induction es generalizing h with
  | nil => exact hp
  | cons e es ih =>
    have hes' : ∀ a, .reachedLoop a ∉ es := fun a ha => hes a (List.mem_cons_of_mem _ ha)
    have hbkpt' : .entered true true ∉ es := fun hb => hbkpt (List.mem_cons_of_mem _ hb)
    rw [List.foldl_cons]
    cases e with
    | accepted c => exact ih h hmode hp hes' hbkpt'
    | executed c =>
      simp only [StepHistory.observe]
      split_ifs
      · exact ih _ hmode (by simp [hmode]) hes' hbkpt'
      · exact ih h hmode hp hes' hbkpt'
    | entered active bkpt =>
      simp only [StepHistory.observe]
      split_ifs with hb
      · rw [Bool.and_eq_true] at hb
        rw [hb.1, hb.2] at hbkpt
        exact absurd List.mem_cons_self hbkpt
      · exact ih h hmode hp hes' hbkpt'
    | reachedLoop active => exact absurd List.mem_cons_self (hes active)

/-- In an honest history the command loop that ends a step was reached in thread mode. -/
theorem stepHistory_ends {pre mid₁ mid₂ post : List MonitorEvent} {b : Bool}
    (hh : (stepHistory (pre ++ .reachedLoop false :: mid₁ ++ .executed .resumeStep :: mid₂ ++
      .reachedLoop b :: post)).honest = true)
    (h₁ : ∀ a, .reachedLoop a ∉ mid₁) (h₂ : ∀ a, .reachedLoop a ∉ mid₂)
    (hbkpt : .entered true true ∉ mid₂) : b = false := by
  simp only [stepHistory, List.foldl_append, List.foldl_cons] at hh
  set h₀ := (pre.foldl StepHistory.observe ⟨none, false, true⟩).observe (.reachedLoop false)
  have hmode₁ : (mid₁.foldl StepHistory.observe h₀).loopMode = some false :=
    observe_loopMode h₀ h₁
  set h₁ := (mid₁.foldl StepHistory.observe h₀).observe (.executed .resumeStep) with hh₁
  have hmode : h₁.loopMode = some false := by simp [hh₁, StepHistory.observe, hmode₁]
  have hp : h₁.pending = true := by simp [hh₁, StepHistory.observe, hmode₁]
  have hpend := observe_pending h₁ hmode hp h₂ hbkpt
  have hend := observe_honest_le _ _ hh
  simp only [StepHistory.observe, hpend, Bool.true_and, Bool.and_eq_true] at hend
  simpa using hend.2

/-- At every statement outside a transition user interrupts are masked exactly in the states
2 and 3, which leave interrupts at once; the command loop starts settled; and a step ordered
in thread mode ends in thread mode unless a breakpoint was hit inside an interrupt. -/
theorem debugHandler_stepOver {mem : ℕ → UInt8} {symbols : Symbols} {es : List Event} {c : Config}
    (hrun : TargetRun anyStep mem symbols es c) :
    (c.line.midTransition = false →
      (c.dev.mon.basepri = 0x30 ↔ c.dev.mon.stepOnThread = 2 ∨ c.dev.mon.stepOnThread = 3) ∧
      (c.dev.mon.basepri = 0x30 ∨ c.dev.mon.basepri = 0) ∧
      (c.dev.mon.stepOnThread = 2 ∨ c.dev.mon.stepOnThread = 3 →
        c.dev.mon.exitFromInterrupt = true)) ∧
    (c.line = .declareCmd ∨ c.line = .get → c.dev.mon.stepOnThread = 0 ∧
      c.dev.mon.exitFromInterrupt = false ∧ c.dev.mon.basepri = 0) ∧
    ∀ pre mid₁ mid₂ post b, c.dev.mon.events = pre ++ .reachedLoop false :: mid₁ ++
        .executed .resumeStep :: mid₂ ++ .reachedLoop b :: post →
      (∀ a, .reachedLoop a ∉ mid₁) → (∀ a, .reachedLoop a ∉ mid₂) →
      .entered true true ∉ mid₂ → b = false := by
  have hinv := targetRun_stepInvariant hrun
  refine ⟨fun hmid => ?_, ?_, ?_⟩
  · have hc : c.dev.mon.stepVars.Coherent := stepOverAt_coherent hmid hinv.vars
    have hmasked := hc.masked
    have hunmasked := hc.unmasked
    simp only [Monitor.stepVars] at hmasked hunmasked
    by_cases hs : c.dev.mon.stepOnThread = 2 ∨ c.dev.mon.stepOnThread = 3
    · have hm := hmasked hs
      exact ⟨⟨fun _ => hs, fun _ => hm.1⟩, .inl hm.1, fun _ => hm.2⟩
    · have hu := hunmasked hs
      exact ⟨⟨fun hb => by omega, fun h => absurd h hs⟩, .inr hu, fun h => absurd h hs⟩
  · rintro (hline | hline)
    · have hs := hinv.vars
      rw [hline] at hs
      exact ⟨hs.step, hs.exit, hs.basepri⟩
    · have hs := hinv.vars
      rw [hline] at hs
      exact ⟨hs.step, hs.exit, hs.basepri⟩
  · intro pre mid₁ mid₂ post b hev h₁ h₂ hbkpt
    have hhonest := hinv.honest
    rw [hev] at hhonest
    exact stepHistory_ends hhonest h₁ h₂ hbkpt

/-- A step ordered by the host, and pre-empted by an interrupt. -/
def preemptedRun : List Event :=
  .usb [4, 4, 0, 0] :: .enter threadRegs :: List.replicate 21 .handler ++
    .enter interruptRegs :: List.replicate 11 .handler

/-- The step is taken behind the interrupt and ends in the command loop. -/
def stepRun : List Event :=
  preemptedRun ++ .enter threadRegs :: List.replicate 6 .handler ++
    .enter threadRegs :: List.replicate 13 .handler

/-- User interrupts are masked after `preemptedRun`; after `stepRun` the automaton is settled, and
the loop has been reached in thread mode. -/
theorem debugHandler_stepOver_stepRun :
    ((targetState anyStep preemptedRun).dev.mon.stepOnThread = 2 ∧
      (targetState anyStep preemptedRun).dev.mon.basepri = 0x30 ∧
      (targetState anyStep preemptedRun).dev.mon.exitFromInterrupt = true) ∧
    ((targetState anyStep stepRun).line = .get ∧
      (targetState anyStep stepRun).dev.mon.stepOnThread = 0 ∧
      (targetState anyStep stepRun).dev.mon.exitFromInterrupt = false ∧
      (targetState anyStep stepRun).dev.mon.basepri = 0) ∧
    ∀ b, (targetState anyStep stepRun).dev.mon.events.getLast? = some (.reachedLoop b) →
      b = false := by
  have hmid : TargetRun anyStep blankMemory bootSymbols preemptedRun
      (targetState anyStep preemptedRun) := targetState_run [] preemptedRun (by decide +kernel)
  have hrun : TargetRun anyStep blankMemory bootSymbols stepRun (targetState anyStep stepRun) :=
    targetState_run [] stepRun (by decide +kernel)
  obtain ⟨-, hsettled, hthread⟩ := debugHandler_stepOver hrun
  refine ⟨?_, ?_, fun b hlast => ?_⟩
  · have htwo : (targetState anyStep preemptedRun).dev.mon.stepOnThread = 2 := by decide +kernel
    obtain ⟨hmasked, -, hexit⟩ := (debugHandler_stepOver hmid).1 (by decide +kernel)
    exact ⟨htwo, hmasked.mpr (.inl htwo), hexit (.inl htwo)⟩
  · have hline : (targetState anyStep stepRun).line = .get := by decide +kernel
    exact ⟨hline, hsettled (.inr hline)⟩
  · have hevents : (targetState anyStep stepRun).dev.mon.events =
        [.accepted .resumeStep, .entered false false] ++ .reachedLoop false :: [] ++
          .executed .resumeStep :: [.entered true false, .entered false false,
            .entered false false] ++ [.reachedLoop false] := by decide +kernel
    obtain rfl : false = b := by
      rw [hevents] at hlast
      simpa using hlast
    exact hthread _ _ _ [] false hevents (by simp) (by simp) (by simp)

end BluePill
