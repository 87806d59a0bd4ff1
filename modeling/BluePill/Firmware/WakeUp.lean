import BluePill.Firmware.MonitorRules

/-! Re-entry of the monitor while commands are queued: which returns of `DebugHandler` leave a
command behind with nothing armed, and that all other returns keep it armed. -/
namespace BluePill
open Lib

/-- `flashEraseLoop` is on its way to `debugStartLocalLoop`, which sets `MON_PEND`. -/
def Monitor.eraseRunning (m : Monitor) : Bool :=
  match m.thread with
  | .eraseLoop .spin => false
  | .eraseLoop _ => true
  | _ => false

/-- The monitor will be entered again without a further request. -/
def Monitor.Armed (m : Monitor) : Prop :=
  m.monPend = true ∨ m.monStep = true ∨ m.eraseRunning = true

theorem not_armed_iff (m : Monitor) : ¬ m.Armed ↔
    m.monPend = false ∧ m.monStep = false ∧ m.eraseRunning = false := by
  simp [Monitor.Armed]

/-- Outside the handler a queued command has its re-entry armed. -/
def WakeUpKept (c : Config) : Prop :=
  c.line = .outside → c.dev.mon.gCmdQueue.toList ≠ [] → c.dev.mon.Armed

/-- The two statements at which a wake-up is lost: the command loop is left with commands
queued, `MON_STEP` clear and no request since the entry; and `MON_PEND` is cleared although a
request came after the queue was found empty. -/
def LosesWakeUp (c : Config) : Event → Prop
  | .handler =>
    (c.line = .finalTestEmpty ∧ c.dev.mon.gCmdQueue.toList ≠ [] ∧ c.dev.mon.monPend = false ∧
      c.dev.mon.monStep = false ∧ c.dev.mon.eraseRunning = false) ∨
    (c.line = .finalClearPend ∧ c.dev.mon.gCmdQueue.toList ≠ [] ∧ c.dev.mon.monStep = false ∧
      c.dev.mon.eraseRunning = false)
  | _ => False

def keepsWakeUp (c : Config) (e : Event) : Prop := ¬ LosesWakeUp c e

instance (c : Config) : (e : Event) → Decidable (LosesWakeUp c e)
  | .handler => inferInstanceAs (Decidable (_ ∨ _))
  | .usb _ | .collect | .enter _ | .thread | .user _ => inferInstanceAs (Decidable False)

instance (c : Config) (e : Event) : Decidable (keepsWakeUp c e) :=
  inferInstanceAs (Decidable (¬ LosesWakeUp c e))

/-- What is armed at each statement of the handler that leads to a return. -/
def wakeUpAt (m : Monitor) : Line → Prop
  | .outside | .leave => m.gCmdQueue.toList ≠ [] → m.Armed
  | .clearMonPend => m.monStep = true
  | .reqClearPend | .reqTestEmpty => False
  | .setLr s | .setSp s | .setXpsr s => s = .eraseLoop → m.eraseRunning = true
  | .startClearPend _ | .startSetRunning | .allowTransfer =>
    m.monStep = true ∨ m.eraseRunning = true
  | _ => True

theorem wakeUpAt_requested {m m' : Monitor} {l : Line} (h : wakeUpAt m l)
    (hreq : m.Requested m') : wakeUpAt m' l := by
  obtain ⟨q, params, cs, pend, heq, -, -, hpend⟩ := hreq
  rcases hpend with rfl | ⟨rfl, -⟩
  · exact h
  · rw [heq]
    cases l
    case outside | leave => exact fun _ => .inl rfl
    all_goals exact h

theorem wakeUpAt_handler (c : Config) (hreq : c.dev.mon.monReq = false)
    (hok : keepsWakeUp c .handler) (h : wakeUpAt c.dev.mon c.line) :
    wakeUpAt (debugHandler c.line c.dev).2.mon (debugHandler c.line c.dev).1 := by
  obtain ⟨l, d⟩ := c
  cases l
  -- the ways out of the command loop
  case finalTestEmpty =>
    simp only [debugHandler, CircularBuffer.isEmpty_eq, List.isEmpty_iff]
    split_ifs with hempty
    · trivial
    · intro hq
      by_contra harmed
      exact hok (.inl ⟨rfl, hq, (not_armed_iff d.mon).mp harmed⟩)
  case finalClearPend =>
    intro hq
    by_contra harmed
    exact hok (.inr ⟨rfl, hq, ((not_armed_iff _).mp harmed).2⟩)
  -- the ways out of the prologue
  case armMonStep => rfl
  case clearMonPend => exact fun _ => .inr (.inl h)
  case testMonReq =>
    have hreq : d.mon.monReq = false := hreq
    simp only [debugHandler, hreq, Bool.false_eq_true, if_false]
    trivial
  case reqClearPend | reqTestEmpty => exact h.elim
  -- the start of other code: a single step is armed, or the erase loop runs
  case setPc s =>
    rintro rfl
    rfl
  case setSp s =>
    simp only [debugHandler]
    split_ifs with hs
    · trivial
    · exact h
  case preSetMonStep =>
    intro h
    contradiction
  case setXpsr s =>
    simp only [debugHandler]
    split_ifs with hs
    · exact .inr (h hs)
    · trivial
  case startSetMonStep s => exact .inl rfl
  case startClearPend s =>
    simp only [debugHandler]
    split_ifs <;> exact h
  case startSetRunning | allowTransfer => exact fun _ => .inr h
  case outside | leave | setLr s => exact h
  -- nothing is claimed at the next statement
  case get =>
    simp only [debugHandler]
    rcases d.mon.gCmdQueue.get with _ | c <;> trivial
  case switch =>
    simp only [debugHandler, caseOf]
    rcases d.mon.cmd <;> trivial
  case pull c => rcases c <;> trivial
  case testInterrupt | irqTestStep | irqTestBkpt | irqTestOne | irqTestExit | threadTestTwo
      | threadTestThree | threadTestExit | testEmpty | stepTestContext | testContext s
      | disableUserInterrupts s | testResetAddress | testResetCmd | loopTest =>
    simp only [debugHandler]
    split_ifs <;> trivial
  all_goals trivial

/-- The loop ends with a request, so leaving the running part arms `MON_PEND`. -/
theorem wakeUpAt_thread (l : EraseLine) (d : Device) (hthread : d.mon.thread = .eraseLoop l)
    (h : wakeUpAt d.mon .outside) : wakeUpAt (threadStep l d).mon .outside := by
  cases l
  case pull =>
    intro _
    simp only [threadStep, flashEraseLoop]
    rcases d.mon.gEraseParams.pull with ⟨_ | p, q⟩ <;> exact .inr (.inr rfl)
  case checkAddress p =>
    intro _
    simp only [threadStep, flashEraseLoop]
    split_ifs <;> exact .inr (.inr rfl)
  case checkLast p =>
    intro _
    simp only [threadStep, flashEraseLoop]
    split_ifs <;> exact .inr (.inr rfl)
  case pageTest p cur =>
    intro _
    simp only [threadStep, flashEraseLoop]
    split_ifs <;> exact .inr (.inr rfl)
  case startLocalLoop => exact fun _ => .inl rfl
  case spin =>
    intro hq
    rcases h hq with hpend | hstep | hrun
    · exact .inl hpend
    · exact .inr (.inl hstep)
    · simp [Monitor.eraseRunning, hthread] at hrun
  all_goals exact fun _ => .inr (.inr rfl)

theorem wakeUp_kept : Kept keepsWakeUp fun l m => m.monReq = false ∧ wakeUpAt m l :=
  (monReq_kept keepsWakeUp).under {
    usb := fun _ _ _ h _ hserved => wakeUpAt_requested h hserved
    enter := fun _ _ _ _ _ _ => trivial
    handler := fun c h _ hok => wakeUpAt_handler c hok.2 hok.1 h
    thread := fun c l h _ _ hthread _ => wakeUpAt_thread l c.dev hthread h
    user := by
      intro c a h _ _ _
      cases a with
      | store mem => exact h
      | breakpoint => exact h
      | fault => exact fun _ => .inl rfl
      | sysCallReset => exact wakeUpAt_requested h (sysCallReset_requested c.dev) }

/-- A step that loses a wake-up does: two statements later the handler has returned with a
command queued and nothing armed. -/
theorem losesWakeUp_breaks {c : Config} {e : Event} (h : LosesWakeUp c e) :
    ∃ c', Run step anyStep c [.handler, .handler] c' ∧ ¬ WakeUpKept c' := by
  obtain ⟨l, d⟩ := c
  cases e with
  | handler =>
    rcases h with ⟨hline, hq, hnone⟩ | ⟨hline, hq, hnone⟩
    · obtain rfl : l = .finalTestEmpty := hline
      refine ⟨⟨.outside, { d with mon := { d.mon with stepTaken := false } }⟩,
        .of_runEvents ?_, ?_⟩
      · have hempty : d.mon.gCmdQueue.toList ≠ [] := hq
        simp [runEvents, step, debugHandler, hempty]
      · exact fun hkept => (not_armed_iff _).mpr hnone (hkept rfl hq)
    · obtain rfl : l = .finalClearPend := hline
      refine ⟨⟨.outside, { d with mon := { d.mon with monPend := false, stepTaken := false } }⟩,
        .of_runEvents rfl, ?_⟩
      have hnot : ¬ ({ d.mon with monPend := false, stepTaken := false } : Monitor).Armed :=
        (not_armed_iff _).mpr ⟨rfl, hnone⟩
      exact fun hkept => hnot (hkept rfl hq)
  | usb packet | collect | enter regs | thread | user a => exact h.elim

/-- A Resume and a Halt queued before one entry: the entry clears `MON_PEND`, the Resume ends
the command loop, and the Halt stays queued. -/
def resumeHaltRun : List Event :=
  .usb [4, 3, 0, 0] :: .collect :: .usb [4, 1, 0, 0] :: .collect :: .enter threadRegs ::
    List.replicate 16 .handler

set_option maxRecDepth 4000 in
theorem wakeUpKept_fails :
    ∃ c, TargetRun anyStep blankMemory bootSymbols resumeHaltRun c ∧ ¬ WakeUpKept c := by
  obtain ⟨c, hrun, hc⟩ := targetRun_of_events resumeHaltRun
    (f := fun c => (c.line, c.dev.mon.gCmdQueue.toList, c.dev.mon.monPend, c.dev.mon.monStep,
      c.dev.mon.eraseRunning))
    (v := (.outside, [.halt], false, false, false)) (by decide)
  simp only [Prod.mk.injEq] at hc
  obtain ⟨hline, hq, hnone⟩ := hc
  refine ⟨c, hrun, fun hkept => (not_armed_iff _).mpr hnone (hkept hline ?_)⟩
  rw [hq]
  simp

/-- A run in which no statement loses a wake-up keeps every queued command armed, and such a
statement in any run loses one. -/
theorem wakeUpKept_of_keepsWakeUp {mem : ℕ → UInt8} {symbols : Symbols} {es : List Event}
    {c : Config} (hrun : TargetRun keepsWakeUp mem symbols es c) :
    WakeUpKept c ∧ ∀ e, ¬ keepsWakeUp c e →
      ∃ c', Run step anyStep c [.handler, .handler] c' ∧ ¬ WakeUpKept c' := by
  have hinit : wakeUpAt (Config.initial mem symbols).dev.mon .outside := by
    intro hq
    exact absurd CircularBuffer.toList_empty hq
  have hinv := (wakeUp_kept.run ⟨rfl, hinit⟩ hrun).2
  refine ⟨fun hline => ?_, fun e hbad => losesWakeUp_breaks (not_not.mp hbad)⟩
  rw [hline] at hinv
  exact hinv

/-- A Halt, and a Resume that comes while the handler waits. -/
def haltResumeRun : List Event :=
  .usb [4, 1, 0, 0] :: .collect :: .enter threadRegs :: List.replicate 14 .handler ++
    .usb [4, 3, 0, 0] :: .collect :: List.replicate 11 .handler

set_option maxRecDepth 4000 in
theorem wakeUpKept_haltResumeRun :
    ∃ c, TargetRun keepsWakeUp blankMemory bootSymbols haltResumeRun c ∧ c.line = .outside ∧
      WakeUpKept c := by
  obtain ⟨c, hrun, hline⟩ := targetRun_of_checked keepsWakeUp haltResumeRun
    (f := Config.line) (v := .outside) (by decide)
  exact ⟨c, hrun, hline, (wakeUpKept_of_keepsWakeUp hrun).1⟩

end BluePill
