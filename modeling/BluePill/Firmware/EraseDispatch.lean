import BluePill.Firmware.StepOver
import BluePill.Firmware.EraseLoop

/-! From the dispatch of `StartEraseLoop` to the end of `flashEraseLoop`: when nothing comes
between the handler's return and the last queued erase. -/
namespace BluePill
open Lib

def Monitor.eraseDraining (m : Monitor) : Bool :=
  match m.thread with
  | .eraseLoop l => l.draining
  | _ => false

/-- The statements between the change of the saved registers and the handler's return. -/
def Line.starting : Line → Bool
  | .setLr _ | .setSp _ | .preSetMonStep | .setXpsr _ | .startSetMonStep _ | .startClearPend _
  | .startSetRunning => true
  | _ => false

/-- The loop is about to refuse the entry in hand. -/
def Monitor.refusesEntry (m : Monitor) : Bool :=
  match m.thread with
  | .eraseLoop (.checkAddress p) => addressRejected p
  | .eraseLoop (.checkLast p) => lastRejected p
  | _ => false

/-- The steps that keep a dispatched erase from running: the dispatch itself with `MON_STEP`
set; another command, taken off the queue before the loop is done, that halts, steps or leaves
the loop; and an entry the loop refuses while others wait behind it. -/
def BreaksErase (c : Config) : Event → Prop
  | .handler =>
    (c.line = .pull .startEraseLoop ∧ c.dev.mon.monStep = true) ∨
    (c.dev.mon.eraseDraining = true ∧ (c.line = .pull .halt ∨ c.line = .pull .resumeStep ∨
      c.line = .setPc .localLoop ∨ c.line = .setPc .firmware))
  | .thread => c.dev.mon.refusesEntry = true ∧ c.dev.mon.gEraseParams.toList ≠ []
  | _ => False

def keepsErase (c : Config) (e : Event) : Prop := ¬ BreaksErase c e

instance (c : Config) : (e : Event) → Decidable (BreaksErase c e)
  | .handler => inferInstanceAs (Decidable (_ ∨ _))
  | .thread => inferInstanceAs (Decidable (_ ∧ _))
  | .usb _ | .collect | .enter _ | .user _ => inferInstanceAs (Decidable False)

instance (c : Config) (e : Event) : Decidable (keepsErase c e) :=
  inferInstanceAs (Decidable (¬ BreaksErase c e))

/-- Neither a single step nor a step out of an interrupt is under way. -/
structure Monitor.Calm (m : Monitor) : Prop where
  noStep : m.monStep = false
  step : m.stepOnThread = 0
  exit : m.exitFromInterrupt = false

/-- What holds at each statement of the handler while the erase loop is not done. -/
def drainingAt (m : Monitor) : Line → Prop
  | .outside | .leave => m.Calm ∧ m.gHaltState = .running ∧
      (m.monPend = true → m.gCmdQueue.toList ≠ [])
  | .testInterrupt | .threadTestTwo | .threadTestThree | .threadTestExit | .clearStep
  | .testMonReq | .testEmpty | .declareCmd | .get => m.Calm ∧ m.gHaltState = .running ∧
      m.gCmdQueue.toList ≠ [] ∧ m.interruptActive = false
  | .switch | .testContext _ | .pull _ =>
    m.Calm ∧ m.gHaltState = .running ∧ m.interruptActive = false
  | .resumeClearMonStep | .loopSetRunning | .loopTest | .finalTestEmpty | .finalClearPend
  | .readStackPointer | .readResetAddress | .testResetAddress | .testResetCmd
  | .hang => m.Calm ∧ m.gHaltState = .running
  | .disableUserInterrupts _ | .setPc _ => m.Calm ∧ m.gHaltState = .running
  | .setLr s | .setSp s | .setXpsr s | .startClearPend s => m.Calm ∧ s = .eraseLoop
  | .startSetRunning => m.Calm ∧ (m.monPend = true → m.gCmdQueue.toList ≠ [])
  | _ => False

/-- The dispatch is under way with `MON_STEP` clear. -/
def dispatchAt (m : Monitor) : Line → Prop
  | .disableUserInterrupts s | .setPc s => s = .eraseLoop → m.monStep = false
  | _ => True

theorem drainingAt_requested {m m' : Monitor} {l : Line} (h : drainingAt m l)
    (hreq : m.Requested m') : drainingAt m' l := by
  obtain ⟨q, params, cs, pend, heq, hq, -, hpend⟩ := hreq
  have hne : m.gCmdQueue.toList ≠ [] → q.toList ≠ [] := by
    intro hne hnil
    rw [hnil] at hq
    exact hne (List.append_eq_nil_iff.mp hq.symm).1
  rcases hpend with rfl | ⟨rfl, hq'⟩
  · exact h
  · have hcalm : m.Calm → m'.Calm := by
      rw [heq]
      exact fun hc => ⟨hc.noStep, hc.step, hc.exit⟩
    rw [heq] at hcalm ⊢
    cases l
    case outside | leave => exact ⟨hcalm h.1, h.2.1, fun _ => hq'⟩
    case startSetRunning => exact ⟨hcalm h.1, fun _ => hq'⟩
    case testInterrupt | threadTestTwo | threadTestThree | threadTestExit | clearStep | testMonReq
        | testEmpty | declareCmd | get => exact ⟨hcalm h.1, h.2.1, hne h.2.2.1, h.2.2.2⟩
    all_goals first | exact h.elim | exact ⟨hcalm h.1, h.2⟩

theorem dispatchAt_handler (c : Config) (hok : keepsErase c .handler)
    (h : dispatchAt c.dev.mon c.line) :
    dispatchAt (debugHandler c.line c.dev).2.mon (debugHandler c.line c.dev).1 := by
  obtain ⟨l, d⟩ := c
  cases l
  case pull cmd =>
    cases cmd
    case startEraseLoop =>
      intro _
      exact Bool.eq_false_iff.mpr fun hs => hok (.inl ⟨rfl, hs⟩)
    case startFirmware | startLocalLoop =>
      intro h
      contradiction
    all_goals trivial
  case disableUserInterrupts s =>
    simp only [debugHandler]
    split_ifs
    · trivial
    · exact h
  case testResetCmd =>
    simp only [debugHandler]
    split_ifs
    · intro h
      contradiction
    · trivial
  case get =>
    simp only [debugHandler]
    rcases d.mon.gCmdQueue.get with _ | c <;> trivial
  case switch =>
    simp only [debugHandler, caseOf]
    rcases d.mon.cmd <;> trivial
  case testInterrupt | irqTestStep | irqTestBkpt | irqTestOne | irqTestExit | threadTestTwo
      | threadTestThree | threadTestExit | testMonReq | reqTestEmpty | testEmpty
      | stepTestContext | testContext s | testResetAddress | setSp s | setXpsr s
      | startClearPend s | loopTest | finalTestEmpty =>
    simp only [debugHandler]
    split_ifs <;> trivial
  all_goals trivial

/-- One statement of the handler while the erase loop is not done. -/
theorem drainingAt_handler {l : Line} {d : Device} (hreq : d.mon.monReq = false)
    (hl : ∀ s, l ≠ .setPc s) (hcmd : l ≠ .pull .halt ∧ l ≠ .pull .resumeStep)
    (h : drainingAt d.mon l) : drainingAt (debugHandler l d).2.mon (debugHandler l d).1 := by
  cases l
  -- the prologue goes straight to the command loop
  case testInterrupt =>
    simp only [debugHandler, h.2.2.2, Bool.false_eq_true, if_false]
    exact h
  case threadTestTwo | threadTestThree =>
    simp only [debugHandler, h.1.step]
    exact h
  case threadTestExit =>
    simp only [debugHandler, h.1.exit, Bool.false_eq_true, if_false]
    exact h
  case clearStep => exact ⟨⟨h.1.noStep, rfl, h.1.exit⟩, h.2⟩
  case testMonReq =>
    simp only [debugHandler, hreq, Bool.false_eq_true, if_false]
    exact h
  case testEmpty =>
    simp only [debugHandler, CircularBuffer.isEmpty_eq, List.isEmpty_iff, h.2.2.1, if_false]
    exact h
  case declareCmd => exact ⟨⟨h.1.noStep, h.1.step, h.1.exit⟩, h.2⟩
  case get =>
    obtain ⟨c, rest, hq⟩ := List.exists_cons_of_ne_nil h.2.2.1
    simp only [debugHandler, CircularBuffer.get_eq, hq, List.head?_cons]
    exact ⟨⟨h.1.noStep, h.1.step, h.1.exit⟩, h.2.1, h.2.2.2⟩
  -- the commands that leave the loop alone
  case switch =>
    simp only [debugHandler, caseOf]
    rcases d.mon.cmd <;> first | exact h | exact ⟨h.1, h.2.1⟩
  case testContext s =>
    simp only [debugHandler, h.2.2, Bool.false_eq_true, if_false]
    exact h
  case pull cmd =>
    have hcalm : (d.mon.pullCmd cmd).Calm := ⟨h.1.noStep, h.1.step, h.1.exit⟩
    cases cmd
    case halt => exact absurd rfl hcmd.1
    case resumeStep => exact absurd rfl hcmd.2
    all_goals exact ⟨hcalm, h.2.1⟩
  case resumeClearMonStep => exact ⟨⟨rfl, h.1.step, h.1.exit⟩, h.2⟩
  case loopSetRunning => exact ⟨⟨h.1.noStep, h.1.step, h.1.exit⟩, rfl⟩
  case loopTest =>
    simp only [debugHandler, h.2, ne_eq, not_true, if_false]
    exact h
  case finalTestEmpty =>
    simp only [debugHandler, CircularBuffer.isEmpty_eq, List.isEmpty_iff]
    split_ifs with hempty
    · exact h
    · exact ⟨h.1, h.2, fun _ => hempty⟩
  case finalClearPend =>
    exact ⟨⟨h.1.noStep, h.1.step, h.1.exit⟩, h.2, fun hpull => absurd hpull Bool.false_ne_true⟩
  case readStackPointer | readResetAddress => exact ⟨⟨h.1.noStep, h.1.step, h.1.exit⟩, h.2⟩
  case testResetAddress | testResetCmd =>
    simp only [debugHandler]
    split_ifs <;> exact h
  case disableUserInterrupts s =>
    simp only [debugHandler]
    split_ifs <;> exact h
  -- the rest of the dispatch
  case setPc s => exact absurd rfl (hl s)
  case setLr s => exact h
  case setSp s =>
    obtain ⟨hcalm, rfl⟩ := h
    exact ⟨hcalm, rfl⟩
  case setXpsr s =>
    obtain ⟨hcalm, rfl⟩ := h
    exact ⟨hcalm, rfl⟩
  case startClearPend s =>
    obtain ⟨hcalm, rfl⟩ := h
    exact ⟨⟨hcalm.noStep, hcalm.step, hcalm.exit⟩, fun hpull => absurd hpull Bool.false_ne_true⟩
  case startSetRunning => exact ⟨⟨h.1.noStep, h.1.step, h.1.exit⟩, rfl, h.2⟩
  case leave => exact ⟨⟨h.1.noStep, h.1.step, h.1.exit⟩, h.2⟩
  case outside | hang => exact h
  all_goals exact h.elim

/-- The whole invariant of the dispatch. -/
structure EraseInvariant (l : Line) (m : Monitor) : Prop where
  step : StepInvariant l m
  dispatch : dispatchAt m l
  draining : m.eraseDraining = true → drainingAt m l

theorem eraseInvariant_handler (c : Config) (hok : keepsErase c .handler)
    (h : EraseInvariant c.line c.dev.mon) (hdrain :
      (debugHandler c.line c.dev).2.mon.eraseDraining = true) :
    drainingAt (debugHandler c.line c.dev).2.mon (debugHandler c.line c.dev).1 := by
  by_cases hl : ∃ s, c.line = .setPc s
  · obtain ⟨s, hline⟩ := hl
    have hvars := h.step.vars
    have hdispatch := h.dispatch
    rw [hline] at hvars hdispatch hdrain ⊢
    cases s with
    | eraseLoop => exact ⟨⟨hdispatch rfl, hvars.step, hvars.exit⟩, rfl⟩
    | localLoop | firmware => exact absurd hdrain Bool.false_ne_true
  · have hl' : ∀ s, c.line ≠ .setPc s := fun s hs => hl ⟨s, hs⟩
    have hthread := debugHandler_thread c.dev hl'
    have hdrain' : c.dev.mon.eraseDraining = true := by
      rw [Monitor.eraseDraining, hthread] at hdrain
      exact hdrain
    refine drainingAt_handler h.step.noRequest hl' ⟨fun hp => ?_, fun hp => ?_⟩
      (h.draining hdrain')
    · exact hok (.inr ⟨hdrain', .inl hp⟩)
    · exact hok (.inr ⟨hdrain', .inr (.inl hp)⟩)

theorem threadStep_eraseDraining (l : EraseLine) (d : Device) :
    (threadStep l d).mon.eraseDraining = (flashEraseLoop l d).1.draining := rfl

theorem eraseInvariant_kept : Kept keepsErase EraseInvariant where
  usb := by
    rintro c packet m h hok hserved
    refine ⟨(stepInvariant_kept keepsErase).usb c packet m h.step hok hserved, ?_, fun hd => ?_⟩
    · have hdispatch := h.dispatch
      obtain ⟨q, params, cs, pend, rfl, -⟩ := hserved
      exact hdispatch
    · refine drainingAt_requested (h.draining ?_) hserved
      obtain ⟨q, params, cs, pend, rfl, -⟩ := hserved
      exact hd
  enter := by
    rintro c regs h hline hok hen
    refine ⟨(stepInvariant_kept keepsErase).enter c regs h.step hline hok hen, trivial,
      fun hd => ?_⟩
    obtain ⟨hcalm, hrun, hpend⟩ : drainingAt c.dev.mon .outside := h.draining hd
    have huser : (c.dev.mon.thread == .user) = false := by
      rw [beq_eq_false_iff_ne]
      intro hu
      simp [enterHandler, Monitor.eraseDraining, hu] at hd
    simp only [Monitor.canEnter, huser, Bool.false_or, hcalm.noStep, Bool.or_false,
      Bool.and_eq_true, Bool.not_eq_true'] at hen
    exact ⟨⟨hcalm.noStep, hcalm.step, hcalm.exit⟩, hrun, hpend hen.1, hen.2⟩
  handler := fun c h hline hok =>
    ⟨(stepInvariant_kept keepsErase).handler c h.step hline hok,
      dispatchAt_handler c hok h.dispatch, eraseInvariant_handler c hok h⟩
  thread := by
    rintro c l h hline hok hthread hruns
    refine ⟨(stepInvariant_kept keepsErase).thread c l h.step hline hok hthread hruns, trivial,
      fun hd => ?_⟩
    rw [threadStep_eraseDraining] at hd
    have hl : l.draining = true := by
      cases l <;> first | rfl | exact hd
    have hout : drainingAt c.dev.mon .outside := h.draining (by
      rw [Monitor.eraseDraining, hthread]
      exact hl)
    obtain ⟨m, params, irq19, irq20, hserved, heq⟩ := threadStep_requested l c.dev
    obtain ⟨hcalm, hrun, hpend⟩ := drainingAt_requested hout hserved
    rw [heq]
    exact ⟨⟨hcalm.noStep, hcalm.step, hcalm.exit⟩, hrun, hpend⟩
  user := by
    rintro c a h hline hok hthread
    refine ⟨(stepInvariant_kept keepsErase).user c a h.step hline hok hthread, trivial,
      fun hd => ?_⟩
    have huser : (userStep a c.dev).mon.thread = .user := (userStep_frame a c.dev).1.trans hthread
    simp [Monitor.eraseDraining, huser] at hd

theorem eraseInvariant_initial : EraseInvariant .outside Monitor.initial :=
  ⟨stepInvariant_initial, trivial, fun hd => absurd hd (by decide)⟩

/-- The page counter of the loop is in range wherever thread mode is in it. -/
def Monitor.LoopSound (m : Monitor) : Prop := ∀ l, m.thread = .eraseLoop l → l.Sound

theorem loopSound_kept (ok : Config → Event → Prop) : Kept ok fun _ m => m.LoopSound where
  usb := fun c packet m h _ hserved l hthread => h l (hserved.frame.1.symm.trans hthread)
  enter := fun _ _ h _ _ _ => h
  handler := by
    intro c h _ _ l hthread
    rcases debugHandler_eraseLoop hthread with rfl | hold
    · trivial
    · exact h l hold
  thread := by
    rintro c l h - - hthread - l' hl'
    obtain rfl : (flashEraseLoop l c.dev).1 = l' := ThreadCode.eraseLoop.inj hl'
    exact flashEraseLoop_sound c.dev (h l hthread)
  user := by
    intro c a h _ _ _ l hl
    rw [(userStep_frame a c.dev).1] at hl
    exact h l hl

/-- While a dispatched erase is not done, no single step is armed outside the handler and the
handler reports no halted state. -/
structure Config.EraseUndisturbed (c : Config) : Prop where
  noStep : c.line = .outside → c.dev.mon.monStep = false
  notHalted : c.line.starting = false → c.dev.mon.gHaltState = .running
  notWaiting : c.line ≠ .wfi

theorem eraseUndisturbed_of_drainingAt {c : Config} (h : drainingAt c.dev.mon c.line) :
    c.EraseUndisturbed := by
  obtain ⟨l, d⟩ := c
  refine ⟨?_, ?_, ?_⟩
  · rintro rfl
    exact h.1.noStep
  · intro hstart
    cases l
    case setLr | setSp | setXpsr | startClearPend | startSetRunning =>
      exact absurd hstart (by simp [Line.starting])
    case testInterrupt | threadTestTwo | threadTestThree | threadTestExit | clearStep | testMonReq
        | testEmpty | declareCmd | get | switch | testContext | pull | outside | leave =>
      exact h.2.1
    all_goals first | exact h.elim | exact h.2
  · rintro rfl
    exact h

/-- The erase goes on, or the loop has just found `gEraseParams` empty. -/
def Config.EraseContinues (c : Config) : Prop :=
  c.dev.mon.eraseDraining = true ∨
    (c.dev.mon.thread = .eraseLoop .enableIrq19 ∧ c.dev.mon.gEraseParams.toList = [])

theorem eraseDraining_congr {m m' : Monitor} (h : m'.thread = m.thread) :
    m'.eraseDraining = m.eraseDraining := by
  rw [Monitor.eraseDraining, Monitor.eraseDraining, h]

theorem eraseContinues_thread {c : Config} {l : EraseLine} (hok : keepsErase c .thread)
    (hthread : c.dev.mon.thread = .eraseLoop l) (hl : l.draining = true) :
    Config.EraseContinues { c with dev := threadStep l c.dev } := by
  have hrefused : c.dev.mon.refusesEntry = true → c.dev.mon.gEraseParams.toList = [] :=
    fun hrej => by_contra fun hne => hok ⟨hrej, hne⟩
  rw [Monitor.refusesEntry, hthread] at hrefused
  cases l with
  | pull =>
    rcases hq : c.dev.mon.gEraseParams.toList with _ | ⟨p, ps⟩
    · right
      rw [threadStep, flashEraseLoop_pull_nil hq]
      exact ⟨rfl, hq⟩
    · obtain ⟨q, -, hpull⟩ := flashEraseLoop_pull_cons hq
      left
      rw [threadStep, hpull]
      rfl
  | checkAddress p =>
    by_cases hrej : addressRejected p = true
    · have hbreak : flashEraseLoop (.checkAddress p) c.dev = (.enableIrq19, c.dev) := by
        simp only [flashEraseLoop, hrej, if_true]
      right
      rw [threadStep, hbreak]
      exact ⟨rfl, hrefused hrej⟩
    · left
      simp only [threadStep, flashEraseLoop, hrej, Bool.false_eq_true, if_false]
      rfl
  | checkLast p =>
    by_cases hrej : lastRejected p = true
    · have hbreak : flashEraseLoop (.checkLast p) c.dev = (.enableIrq19, c.dev) := by
        simp only [flashEraseLoop, hrej, if_true]
      right
      rw [threadStep, hbreak]
      exact ⟨rfl, hrefused hrej⟩
    · left
      simp only [threadStep, flashEraseLoop, hrej, Bool.false_eq_true, if_false]
      rfl
  | pageTest p cur =>
    left
    simp only [threadStep, flashEraseLoop]
    split_ifs <;> rfl
  | disableIrq19 | disableIrq20 | blankCheck p cur | erasePage p cur b | nextPage p cur =>
    exact .inl rfl
  | enableIrq19 | enableIrq20 | startLocalLoop | spin => exact absurd hl Bool.false_ne_true

theorem eraseContinues_step {c c' : Config} {e : Event} (hdrain : c.dev.mon.eraseDraining = true)
    (hok : keepsErase c e) (hs : step c e = some c') : c'.EraseContinues := by
  have hsame : c'.dev.mon.thread = c.dev.mon.thread → c'.EraseContinues := fun h =>
    .inl ((eraseDraining_congr h).trans hdrain)
  rcases step_cases hs with ⟨packet, rfl, _, hline, hd⟩ | ⟨rfl, rfl⟩ | ⟨regs, rfl, hline, hen, rfl⟩ |
    ⟨rfl, hline, rfl⟩ | ⟨l, rfl, hline, hthread, hruns, rfl⟩ | ⟨a, rfl, hline, hthread, rfl⟩
  · exact hsame (usbDataOutCallback_effect hd).requested.frame.1
  · exact hsame rfl
  · exact hsame rfl
  · by_cases hl : ∃ s, c.line = .setPc s
    · obtain ⟨s, hpc⟩ := hl
      rw [hpc]
      cases s with
      | eraseLoop => exact .inl rfl
      | localLoop => exact absurd (.inr ⟨hdrain, .inr (.inr (.inl hpc))⟩) hok
      | firmware => exact absurd (.inr ⟨hdrain, .inr (.inr (.inr hpc))⟩) hok
    · exact hsame (debugHandler_thread c.dev fun s hs => hl ⟨s, hs⟩)
  · apply eraseContinues_thread hok hthread
    rw [Monitor.eraseDraining, hthread] at hdrain
    exact hdrain
  · simp [Monitor.eraseDraining, hthread] at hdrain

/-- In a run whose steps let a dispatched erase run, it runs: undisturbed, step by step until
`gEraseParams` is empty, and to the end whenever nothing is pending. -/
theorem flashEraseLoop_runs {mem : ℕ → UInt8} {symbols : Symbols} {es : List Event} {c : Config}
    (hrun : TargetRun keepsErase mem symbols es c) (hdrain : c.dev.mon.eraseDraining = true) :
    c.EraseUndisturbed ∧
    (∀ e c', keepsErase c e → step c e = some c' → c'.EraseContinues) ∧
    (c.line = .outside → c.dev.mon.monPend = false →
      ∃ n c', Run step anyStep c (List.replicate n .thread) c' ∧
        c'.dev.mon.thread = .eraseLoop .enableIrq19) := by
  have hinv := eraseInvariant_kept.run (c := .initial mem symbols) eraseInvariant_initial hrun
  have hsound := (loopSound_kept keepsErase).run (c := .initial mem symbols)
    (fun _ h => nomatch h) hrun
  have hundisturbed := eraseUndisturbed_of_drainingAt (hinv.draining hdrain)
  refine ⟨hundisturbed, fun e c' hok hs => eraseContinues_step hdrain hok hs, fun hline hpend => ?_⟩
  rcases hthread : c.dev.mon.thread with _ | _ | l
  · simp [Monitor.eraseDraining, hthread] at hdrain
  · simp [Monitor.eraseDraining, hthread] at hdrain
  · rw [Monitor.eraseDraining, hthread] at hdrain
    obtain ⟨d', hloop⟩ := loopRun_ends c.dev hdrain (hsound l hthread)
    obtain ⟨n, c', hthreads, -, hend, -⟩ := threadRun_of_loopRun hloop c hline hthread rfl hpend
      (hundisturbed.noStep hline)
    exact ⟨n, c', hthreads, hend⟩

/-- A step ordered by the host leaves `MON_STEP` set, and an erase is dispatched then. -/
def stepThenEraseRun : List Event :=
  .usb [4, 4, 0, 0] :: .collect :: .enter threadRegs :: List.replicate 21 .handler ++
    .enter threadRegs :: List.replicate 10 .handler ++
    .usb (FlashCmdHead.encode ⟨6, 2, 0x08004000, 0x400⟩) :: .collect ::
    List.replicate 14 .handler ++ .enter threadRegs :: List.replicate 10 .handler

set_option maxRecDepth 4000 in
/-- The first instruction of the loop traps, and the handler waits with the erase not begun. -/
theorem flashEraseLoop_trapped :
    ∃ c, TargetRun anyStep blankMemory bootSymbols stepThenEraseRun c ∧
      c.dev.mon.eraseDraining = true ∧ c.dev.mon.thread = .eraseLoop .disableIrq19 ∧
      c.dev.mon.gEraseParams.toList = [⟨0x08004000, 0x400⟩] ∧ c.line = .wfi ∧
      ¬ c.EraseUndisturbed := by
  obtain ⟨c, hrun, hc⟩ := targetRun_of_events stepThenEraseRun
    (f := fun c => (c.line, c.dev.mon.thread, c.dev.mon.gEraseParams.toList))
    (v := (.wfi, .eraseLoop .disableIrq19, [⟨0x08004000, 0x400⟩])) (by decide +kernel)
  simp only [Prod.mk.injEq] at hc
  obtain ⟨hline, hthread, hparams⟩ := hc
  refine ⟨c, hrun, ?_, hthread, hparams, hline, fun h => h.notWaiting hline⟩
  rw [Monitor.eraseDraining, hthread]
  rfl

/-- An erase dispatched from a halt, and the first statements of the loop. -/
def haltThenEraseRun : List Event :=
  .usb [4, 1, 0, 0] :: .collect :: .enter threadRegs :: List.replicate 14 .handler ++
    .usb (FlashCmdHead.encode ⟨6, 2, 0x08004000, 0x400⟩) :: .collect ::
    List.replicate 14 .handler ++ [.thread, .thread, .thread]

set_option maxRecDepth 4000 in
theorem flashEraseLoop_runs_haltThenEraseRun :
    ∃ c, TargetRun keepsErase blankMemory bootSymbols haltThenEraseRun c ∧
      c.dev.mon.thread = .eraseLoop (.checkAddress ⟨0x08004000, 0x400⟩) ∧ c.EraseUndisturbed := by
  obtain ⟨c, hrun, hthread⟩ := targetRun_of_checked keepsErase haltThenEraseRun
    (f := fun c => c.dev.mon.thread) (v := .eraseLoop (.checkAddress ⟨0x08004000, 0x400⟩))
    (by decide +kernel)
  have hdrain : c.dev.mon.eraseDraining = true := by
    rw [Monitor.eraseDraining, hthread]
    rfl
  exact ⟨c, hrun, hthread, (flashEraseLoop_runs hrun hdrain).1⟩

end BluePill
