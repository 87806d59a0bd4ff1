import BluePill.Firmware.StepOver

/-! The command queue over whole runs: what has been executed is what was accepted, in order,
and a command that has to wait for thread mode is the next one executed there. -/
namespace BluePill
open Lib

/-- The commands whose put succeeded, in order. -/
def acceptedCommands (events : List MonitorEvent) : List DebugHandlerCommand :=
  events.filterMap fun
    | .accepted c => some c
    | _ => none

/-- The commands the handler acted on, in order. -/
def executedCommands (events : List MonitorEvent) : List DebugHandlerCommand :=
  events.filterMap fun
    | .executed c => some c
    | _ => none

theorem acceptedCommands_append (es fs : List MonitorEvent) :
    acceptedCommands (es ++ fs) = acceptedCommands es ++ acceptedCommands fs :=
  List.filterMap_append

theorem executedCommands_append (es fs : List MonitorEvent) :
    executedCommands (es ++ fs) = executedCommands es ++ executedCommands fs :=
  List.filterMap_append

@[simp] theorem acceptedCommands_accepted (cs : List DebugHandlerCommand) :
    acceptedCommands (cs.map .accepted) = cs := by
  induction cs with
  | nil => rfl
  | cons c cs ih => exact congrArg (c :: ·) ih

@[simp] theorem executedCommands_accepted (cs : List DebugHandlerCommand) :
    executedCommands (cs.map .accepted) = [] := by
  induction cs with
  | nil => rfl
  | cons c cs ih => exact ih

/-- Every accepted command has been executed or is still queued, in the order of acceptance. -/
def Monitor.Ledger (m : Monitor) : Prop :=
  executedCommands m.events ++ m.gCmdQueue.toList = acceptedCommands m.events

/-- The command looked at is the head of the queue until it is pulled. -/
def headAt (m : Monitor) : Line → Prop
  | .switch => m.gCmdQueue.toList.head? = some m.cmd
  | .testContext s => m.gCmdQueue.toList.head? = some s.command ∧ m.cmd = s.command
  | .pull c => m.gCmdQueue.toList.head? = some c ∧ m.cmd = c
  | _ => True

/-- A put in between goes to the other end of the queue. -/
theorem head?_append_of_some {α : Type} {xs : List α} {x : α} (h : xs.head? = some x)
    (ys : List α) : (xs ++ ys).head? = some x := by
  rw [List.head?_append, h, Option.some_or]

theorem headAt_requested {m m' : Monitor} {l : Line} (h : headAt m l) (hreq : m.Requested m') :
    headAt m' l := by
  obtain ⟨q, params, cs, pend, rfl, hq, -⟩ := hreq
  cases l
  case switch =>
    simp only [headAt, hq] at h ⊢
    exact head?_append_of_some h cs
  case testContext s =>
    simp only [headAt, hq] at h ⊢
    exact ⟨head?_append_of_some h.1 cs, h.2⟩
  case pull c =>
    simp only [headAt, hq] at h ⊢
    exact ⟨head?_append_of_some h.1 cs, h.2⟩
  all_goals exact h

theorem ledger_requested {m m' : Monitor} (h : m.Ledger) (hreq : m.Requested m') : m'.Ledger := by
  obtain ⟨q, params, cs, pend, rfl, hq, -⟩ := hreq
  unfold Monitor.Ledger at h ⊢
  simp only [hq, executedCommands_append, acceptedCommands_append, executedCommands_accepted,
    acceptedCommands_accepted, List.append_nil]
  rw [← List.append_assoc, h]

theorem headAt_handler (l : Line) (d : Device) (h : headAt d.mon l) :
    headAt (debugHandler l d).2.mon (debugHandler l d).1 := by
  cases l
  case get =>
    simp only [debugHandler, CircularBuffer.get_eq]
    rcases hget : d.mon.gCmdQueue.toList.head? with _ | c
    · trivial
    · exact hget
  case switch =>
    have hhead : d.mon.gCmdQueue.toList.head? = some d.mon.cmd := h
    simp only [debugHandler]
    rcases hc : d.mon.cmd <;> rw [hc] at hhead
    case nop => trivial
    all_goals exact ⟨hhead, hc⟩
  case testContext s =>
    simp only [debugHandler]
    split_ifs
    · trivial
    · exact h
  case pull c => rcases c <;> trivial
  case testInterrupt | irqTestStep | irqTestBkpt | irqTestOne | irqTestExit | threadTestTwo
      | threadTestThree | threadTestExit | testMonReq | reqTestEmpty | testEmpty
      | stepTestContext | disableUserInterrupts s | testResetAddress | testResetCmd | setSp s
      | setXpsr s | startClearPend s | loopTest | finalTestEmpty =>
    simp only [debugHandler]
    split_ifs <;> trivial
  all_goals trivial

/-- Only `pull` takes a command off the queue, and it takes the one acted on. -/
theorem ledger_handler (l : Line) (d : Device) (hhead : headAt d.mon l) (h : d.mon.Ledger) :
    (debugHandler l d).2.mon.Ledger := by
  cases l
  case get =>
    simp only [debugHandler]
    rcases d.mon.gCmdQueue.get with _ | c <;> exact h
  case declareCmd =>
    unfold Monitor.Ledger at h ⊢
    simpa [debugHandler, executedCommands, acceptedCommands] using h
  case pull c =>
    unfold Monitor.Ledger at h ⊢
    obtain ⟨rest, hrest⟩ := List.head?_eq_some_iff.mp hhead.1
    have hpull : (debugHandler (.pull c) d).2.mon.gCmdQueue.toList = rest := by
      simp only [debugHandler, Monitor.pullCmd, CircularBuffer.toList_pull, hrest, List.tail_cons]
    have hexec : executedCommands (debugHandler (.pull c) d).2.mon.events =
        executedCommands d.mon.events ++ [c] := executedCommands_append _ _
    have haccept : acceptedCommands (debugHandler (.pull c) d).2.mon.events =
        acceptedCommands d.mon.events ++ [] := acceptedCommands_append _ _
    rw [hpull, hexec, haccept, List.append_nil, ← h, hrest, List.append_assoc]
    rfl
  all_goals exact h

theorem commandOrder_kept (ok : Config → Event → Prop) :
    Kept ok fun l m => headAt m l ∧ m.Ledger where
  usb := fun c packet m h _ hreq => ⟨headAt_requested h.1 hreq, ledger_requested h.2 hreq⟩
  enter := by
    rintro c regs ⟨-, h⟩ - - -
    refine ⟨trivial, ?_⟩
    have hexec : executedCommands (enterHandler c.dev regs).mon.events =
        executedCommands c.dev.mon.events ++ [] := executedCommands_append _ _
    have haccept : acceptedCommands (enterHandler c.dev regs).mon.events =
        acceptedCommands c.dev.mon.events ++ [] := acceptedCommands_append _ _
    unfold Monitor.Ledger at h ⊢
    rw [hexec, haccept, List.append_nil, List.append_nil]
    exact h
  handler := fun c h _ _ =>
    ⟨headAt_handler c.line c.dev h.1, ledger_handler c.line c.dev h.1 h.2⟩
  thread := by
    rintro c l ⟨-, h⟩ - - - -
    obtain ⟨m, params, irq19, irq20, hserved, heq⟩ := threadStep_requested l c.dev
    have hm : m.Ledger := ledger_requested h hserved
    rw [heq]
    exact ⟨trivial, hm⟩
  user := by
    rintro c a ⟨-, h⟩ - - -
    cases a with
    | store mem => exact ⟨trivial, h⟩
    | breakpoint => exact ⟨trivial, h⟩
    | fault => exact ⟨trivial, h⟩
    | sysCallReset => exact ⟨trivial, ledger_requested h (sysCallReset_requested c.dev)⟩

theorem targetRun_commandOrder {ok : Config → Event → Prop} {mem : ℕ → UInt8} {symbols : Symbols}
    {es : List Event} {c : Config} (h : TargetRun ok mem symbols es c) :
    headAt c.dev.mon c.line ∧ c.dev.mon.Ledger :=
  (commandOrder_kept ok).run (c := .initial mem symbols) ⟨trivial, rfl⟩ h

/-- The history without the puts: what the handler itself did. -/
def handlerEvents (events : List MonitorEvent) : List MonitorEvent :=
  events.filter fun
    | .accepted _ => false
    | _ => true

inductive MonitorEvent.IsEntry : MonitorEvent → Prop
  | intro (interruptActive bkpt : Bool) : IsEntry (.entered interruptActive bkpt)

/-- Entries that do not reach the command loop, then the first arrival there, in thread mode,
and `c` as the first command executed. -/
inductive DeferredHistory (c : DebugHandlerCommand) : List MonitorEvent → Prop
  | waiting {es : List MonitorEvent} : (∀ e ∈ es, e.IsEntry) → DeferredHistory c es
  | reached {es : List MonitorEvent} :
      (∀ e ∈ es, e.IsEntry) → DeferredHistory c (es ++ [.reachedLoop false])
  | executed {es rest : List MonitorEvent} : (∀ e ∈ es, e.IsEntry) →
      DeferredHistory c (es ++ .reachedLoop false :: .executed c :: rest)

theorem handlerEvents_append (es fs : List MonitorEvent) :
    handlerEvents (es ++ fs) = handlerEvents es ++ handlerEvents fs := List.filter_append ..

@[simp] theorem handlerEvents_accepted (cs : List DebugHandlerCommand) :
    handlerEvents (cs.map .accepted) = [] := by
  induction cs with
  | nil => rfl
  | cons c cs ih => exact ih

/-- The handler adds to the history only. -/
theorem debugHandler_events (l : Line) (d : Device) :
    ∃ more, (debugHandler l d).2.mon.events = d.mon.events ++ more := by
  cases l
  case declareCmd => exact ⟨_, rfl⟩
  case pull c => exact ⟨_, rfl⟩
  case get =>
    simp only [debugHandler]
    rcases d.mon.gCmdQueue.get with _ | c <;> exact ⟨[], (List.append_nil _).symm⟩
  all_goals exact ⟨[], (List.append_nil _).symm⟩

/-- The variables that keep a deferred command waiting. -/
def waitingAt (m : Monitor) : Line → Prop
  | .testContext _ => m.interruptActive = true ∧ m.stepOnThread = 0
  | .deferExit => m.stepOnThread = 0
  | .armMonStep | .clearMonPend | .leave | .outside | .testInterrupt | .irqTestStep | .irqTestOne
  | .irqTestExit => m.stepOnThread = 0 ∧ m.exitFromInterrupt = true
  | .threadTestTwo | .threadTestThree | .threadTestExit =>
    m.stepOnThread = 0 ∧ m.exitFromInterrupt = true ∧ m.interruptActive = false
  | .threadClearMonStep | .threadClearExit | .clearStep | .testMonReq | .testEmpty
  | .declareCmd => m.interruptActive = false
  | _ => False

/-- Between the arrival at the command loop and the pull. -/
def arrivedAt (s : Start) (m : Monitor) : Line → Prop
  | .get => m.interruptActive = false
  | .switch => m.interruptActive = false ∧ m.cmd = s.command
  | .testContext s' => m.interruptActive = false ∧ s' = s
  | .pull c => c = s.command
  | _ => False

/-- Where the command of `s`, deferred when the history was `past`, is now. -/
inductive Deferral (s : Start) (past : List MonitorEvent) (l : Line) (m : Monitor) : Prop
  | waiting (new : List MonitorEvent) (hev : m.events = past ++ new)
      (hnew : ∀ e ∈ handlerEvents new, e.IsEntry)
      (hhead : m.gCmdQueue.toList.head? = some s.command) (hat : waitingAt m l)
  | arrived (new es : List MonitorEvent) (hev : m.events = past ++ new)
      (hnew : handlerEvents new = es ++ [.reachedLoop false]) (hes : ∀ e ∈ es, e.IsEntry)
      (hhead : m.gCmdQueue.toList.head? = some s.command) (hat : arrivedAt s m l)
  | executed (new es rest : List MonitorEvent) (hev : m.events = past ++ new)
      (hnew : handlerEvents new = es ++ .reachedLoop false :: .executed s.command :: rest)
      (hes : ∀ e ∈ es, e.IsEntry)

theorem deferral_requested {s : Start} {past : List MonitorEvent} {l : Line} {m m' : Monitor}
    (h : Deferral s past l m) (hreq : m.Requested m') : Deferral s past l m' := by
  obtain ⟨q, params, cs, pend, rfl, hq, -⟩ := hreq
  have hev' : ∀ new, m.events = past ++ new →
      m.events ++ cs.map .accepted = past ++ (new ++ cs.map .accepted) := by
    intro new hev
    rw [hev, List.append_assoc]
  have hnew' : ∀ new, handlerEvents (new ++ cs.map .accepted) = handlerEvents new := by
    intro new
    rw [handlerEvents_append, handlerEvents_accepted, List.append_nil]
  cases h with
  | waiting new hev hnew hhead hat =>
    refine .waiting _ (hev' new hev) ?_ ?_ hat
    · rw [hnew']
      exact hnew
    · rw [hq]
      exact head?_append_of_some hhead cs
  | arrived new es hev hnew hes hhead hat =>
    refine .arrived _ es (hev' new hev) ?_ hes ?_ hat
    · rw [hnew', hnew]
    · rw [hq]
      exact head?_append_of_some hhead cs
  | executed new es rest hev hnew hes =>
    refine .executed _ es rest (hev' new hev) ?_ hes
    rw [hnew', hnew]

/-- While the command waits, no statement of the handler touches the queue or the saved
registers, and none is on record except the arrival at the command loop. -/
theorem debugHandler_waiting_frame {l : Line} {d : Device} (h : waitingAt d.mon l) :
    (debugHandler l d).2.mon.gCmdQueue = d.mon.gCmdQueue ∧
    (debugHandler l d).2.context = d.context ∧
    (l ≠ .declareCmd → (debugHandler l d).2.mon.events = d.mon.events) := by
  cases l
  case declareCmd => exact ⟨rfl, rfl, fun hne => absurd rfl hne⟩
  all_goals first | exact h.elim | exact ⟨rfl, rfl, fun _ => rfl⟩

theorem waitingAt_handler {l : Line} {d : Device} (hreq : d.mon.monReq = false)
    (hq : d.mon.gCmdQueue.toList ≠ []) (h : waitingAt d.mon l) (hne : l ≠ .declareCmd) :
    waitingAt (debugHandler l d).2.mon (debugHandler l d).1 := by
  cases l
  -- in an interrupt the handler returns
  case testContext s =>
    simp only [debugHandler, h.1, if_true]
    exact h.2
  case deferExit => exact ⟨h, rfl⟩
  case testInterrupt =>
    simp only [debugHandler]
    split_ifs with hactive
    · exact h
    · exact ⟨h.1, h.2, Bool.eq_false_iff.mpr hactive⟩
  case irqTestStep =>
    simp only [debugHandler, h.1, ne_eq, not_true, if_false]
    exact h
  case irqTestOne =>
    simp only [debugHandler, h.1]
    exact h
  case irqTestExit =>
    simp only [debugHandler, h.2, if_true]
    exact h
  -- in thread mode it goes on to the command loop
  case threadTestTwo | threadTestThree =>
    simp only [debugHandler, h.1]
    exact h
  case threadTestExit =>
    simp only [debugHandler, h.2.1, if_true]
    exact h.2.2
  case testMonReq =>
    simp only [debugHandler, hreq, Bool.false_eq_true, if_false]
    exact h
  case testEmpty =>
    simp only [debugHandler, CircularBuffer.isEmpty_eq, List.isEmpty_iff, hq, if_false]
    exact h
  case declareCmd => exact absurd rfl hne
  all_goals first | exact h.elim | exact h

theorem deferral_handler {s : Start} {past : List MonitorEvent} {l : Line} {d : Device}
    (hreq : d.mon.monReq = false) (h : Deferral s past l d.mon) :
    Deferral s past (debugHandler l d).1 (debugHandler l d).2.mon := by
  cases h with
  | waiting new hev hnew hhead hat =>
    obtain ⟨hqueue, -, hevents⟩ := debugHandler_waiting_frame hat
    have hq : d.mon.gCmdQueue.toList ≠ [] := by
      intro hnil
      simp [hnil] at hhead
    by_cases hl : l = .declareCmd
    · subst hl
      refine .arrived (new ++ [.reachedLoop false]) (handlerEvents new) ?_ ?_ hnew hhead hat
      · have hactive : d.mon.interruptActive = false := hat
        simp only [debugHandler, hactive, hev, List.append_assoc]
      · exact handlerEvents_append _ _
    · refine .waiting new ((hevents hl).trans hev) hnew ?_ (waitingAt_handler hreq hq hat hl)
      rw [hqueue]
      exact hhead
  | arrived new es hev hnew hes hhead hat =>
    cases l
    case get =>
      simp only [debugHandler, CircularBuffer.get_eq, hhead]
      exact .arrived new es hev hnew hes hhead ⟨hat, rfl⟩
    case switch =>
      have hcase : (debugHandler .switch d).1 = .testContext s := by
        simp only [debugHandler, hat.2]
        cases s <;> rfl
      rw [hcase]
      exact .arrived new es hev hnew hes hhead ⟨hat.1, rfl⟩
    case testContext s' =>
      obtain ⟨hactive, rfl⟩ := hat
      simp only [debugHandler, hactive, Bool.false_eq_true, if_false]
      exact .arrived new es hev hnew hes hhead rfl
    case pull c =>
      obtain rfl : c = s.command := hat
      refine .executed (new ++ [.executed s.command]) es [] ?_ ?_ hes
      · simp only [debugHandler, Monitor.pullCmd, hev, List.append_assoc]
      · rw [handlerEvents_append, hnew, List.append_assoc]
        rfl
    all_goals exact hat.elim
  | executed new es rest hev hnew hes =>
    obtain ⟨more, hmore⟩ := debugHandler_events l d
    refine .executed (new ++ more) es (rest ++ handlerEvents more) ?_ ?_ hes
    · rw [hmore, hev, List.append_assoc]
    · rw [handlerEvents_append, hnew]
      simp

theorem deferral_enter {s : Start} {past : List MonitorEvent} {d : Device}
    (regs : Vector UInt32 17) (h : Deferral s past .outside d.mon) :
    Deferral s past .testInterrupt (enterHandler d regs).mon := by
  set entry := MonitorEvent.entered (exceptionActive regs) d.mon.dfsrBkpt with hentry
  have hevents : (enterHandler d regs).mon.events = d.mon.events ++ [entry] := rfl
  cases h with
  | waiting new hev hnew hhead hat =>
    refine .waiting (new ++ [entry]) ?_ ?_ hhead hat
    · rw [hevents, hev, List.append_assoc]
    · intro e he
      rw [handlerEvents_append] at he
      rcases List.mem_append.mp he with he | he
      · exact hnew e he
      · obtain rfl := List.mem_singleton.mp (List.mem_of_mem_filter he)
        exact .intro _ _
  | arrived new es hev hnew hes hhead hat => exact hat.elim
  | executed new es rest hev hnew hes =>
    refine .executed (new ++ [entry]) es (rest ++ [entry]) ?_ ?_ hes
    · rw [hevents, hev, List.append_assoc]
    · rw [handlerEvents_append, hnew, List.append_assoc]
      rfl

/-- What the core does outside the handler leaves a deferral where it is. -/
theorem Deferral.of_outside {s : Start} {past : List MonitorEvent} {m m' : Monitor}
    (h : Deferral s past .outside m) (hevents : m'.events = m.events)
    (hqueue : m'.gCmdQueue = m.gCmdQueue) (hstep : m'.stepOnThread = m.stepOnThread)
    (hexit : m'.exitFromInterrupt = m.exitFromInterrupt) : Deferral s past .outside m' := by
  cases h with
  | waiting new hev hnew hhead hat =>
    exact .waiting new (hevents.trans hev) hnew (hqueue ▸ hhead)
      ⟨hstep.trans hat.1, hexit.trans hat.2⟩
  | arrived new es hev hnew hes hhead hat => exact hat.elim
  | executed new es rest hev hnew hes => exact .executed new es rest (hevents.trans hev) hnew hes

theorem deferral_kept (ok : Config → Event → Prop) (s : Start) (past : List MonitorEvent) :
    Kept ok fun l m => m.monReq = false ∧ Deferral s past l m :=
  (monReq_kept ok).under {
    usb := fun _ _ _ h _ hserved => deferral_requested h hserved
    enter := fun _ regs h _ _ _ => deferral_enter regs h
    handler := fun _ h _ hok => deferral_handler hok.2 h
    thread := by
      intro c l h _ _ _ _
      obtain ⟨m, params, irq19, irq20, hserved, heq⟩ := threadStep_requested l c.dev
      rw [heq]
      exact (deferral_requested h hserved).of_outside rfl rfl rfl rfl
    user := by
      intro c a h _ _ _
      cases a with
      | store mem => exact h.of_outside rfl rfl rfl rfl
      | breakpoint => exact h.of_outside rfl rfl rfl rfl
      | fault => exact h.of_outside rfl rfl rfl rfl
      | sysCallReset => exact deferral_requested h (sysCallReset_requested c.dev) }

theorem executedCommands_handlerEvents (es : List MonitorEvent) :
    executedCommands (handlerEvents es) = executedCommands es := by
  induction es with
  | nil => rfl
  | cons e es ih =>
    cases e with
    | accepted c => exact ih
    | executed c => exact congrArg (c :: ·) ih
    | entered active bkpt => exact ih
    | reachedLoop active => exact ih

theorem not_isEntry_of_mem_entries {es : List MonitorEvent} {e : MonitorEvent}
    (hes : ∀ e ∈ es, e.IsEntry) {active : Bool} (he : e ∈ es ++ [.reachedLoop active])
    (hne : e ≠ .reachedLoop active) : e.IsEntry := by
  rcases List.mem_append.mp he with he | he
  · exact hes e he
  · exact absurd (List.mem_singleton.mp he) hne

/-- What is executed is a prefix of what was accepted, and the rest is queued; the command
acted on is the one pulled; and a start command met in an interrupt stays at the head of the
queue, with the saved registers untouched, until the first arrival in thread mode, where it is
the next command executed. -/
theorem debugHandler_commandOrder {mem : ℕ → UInt8} {symbols : Symbols} {es : List Event}
    {c : Config} (hrun : TargetRun anyStep mem symbols es c) :
    executedCommands c.dev.mon.events <+: acceptedCommands c.dev.mon.events ∧
    executedCommands c.dev.mon.events ++ c.dev.mon.gCmdQueue.toList =
      acceptedCommands c.dev.mon.events ∧
    (∀ cmd, c.line = .pull cmd → c.dev.mon.cmd = cmd ∧ c.dev.mon.gCmdQueue.pull.1 = some cmd) ∧
    ∀ s, c.line = .testContext s → c.dev.mon.interruptActive = true →
      ∀ fs c', Run step anyStep c fs c' → ∃ new, c'.dev.mon.events = c.dev.mon.events ++ new ∧
        DeferredHistory s.command (handlerEvents new) ∧
        (executedCommands new = [] → c'.dev.mon.gCmdQueue.toList.head? = some s.command) ∧
        (∀ es, (∀ e ∈ es, e.IsEntry) → handlerEvents new = es ++ [.reachedLoop false] →
          arrivedAt s c'.dev.mon c'.line) ∧
        ((∀ e ∈ handlerEvents new, e.IsEntry) →
          (debugHandler c'.line c'.dev).2.mon.gCmdQueue = c'.dev.mon.gCmdQueue ∧
          (debugHandler c'.line c'.dev).2.context = c'.dev.context) := by
  obtain ⟨hhead, hledger⟩ := targetRun_commandOrder hrun
  have hstep := targetRun_stepInvariant hrun
  refine ⟨⟨_, hledger⟩, hledger, fun cmd hline => ?_, fun s hline hactive fs c' hrun' => ?_⟩
  · rw [hline] at hhead
    exact ⟨hhead.2, by rw [CircularBuffer.pull_fst, hhead.1]⟩
  · have hzero : c.dev.mon.stepOnThread = 0 := by
      have hvars := hstep.vars
      rw [hline] at hvars
      exact hvars.step
    rw [hline] at hhead
    have hstart : Deferral s c.dev.mon.events c.line c.dev.mon := by
      refine .waiting [] (List.append_nil _).symm (by simp [handlerEvents]) hhead.1 ?_
      rw [hline]
      exact ⟨hactive, hzero⟩
    have hend := ((deferral_kept anyStep s c.dev.mon.events).run ⟨hstep.noRequest, hstart⟩ hrun').2
    cases hend with
    | waiting new hev hnew hhead' hat =>
      obtain ⟨hqueue, hcontext, -⟩ := debugHandler_waiting_frame hat
      refine ⟨new, hev, .waiting hnew, fun _ => hhead', fun es hes heq => ?_,
        fun _ => ⟨hqueue, hcontext⟩⟩
      have hmem : MonitorEvent.reachedLoop false ∈ handlerEvents new := by simp [heq]
      exact nomatch hnew _ hmem
    | arrived new es hev hnew hes hhead' hat =>
      refine ⟨new, hev, hnew ▸ .reached hes, fun _ => hhead', fun _ _ _ => hat, fun hall => ?_⟩
      have hmem : MonitorEvent.reachedLoop false ∈ handlerEvents new := by simp [hnew]
      exact nomatch hall _ hmem
    | executed new es rest hev hnew hes =>
      have hmem : MonitorEvent.executed s.command ∈ handlerEvents new := by simp [hnew]
      refine ⟨new, hev, hnew ▸ .executed hes, fun hnone => ?_, fun es' hes' heq => ?_,
        fun hall => nomatch hall _ hmem⟩
      · rw [← executedCommands_handlerEvents, hnew, executedCommands_append] at hnone
        simp [executedCommands] at hnone
      · rw [heq] at hmem
        exact nomatch not_isEntry_of_mem_entries hes' hmem (by simp)

/-- A start of the firmware that is ordered while an interrupt is active. -/
def deferralRun : List Event :=
  .usb (FlashCmdHead.encode ⟨6, 3, 0, 0⟩) :: .enter interruptRegs :: List.replicate 15 .handler ++
    .enter threadRegs :: List.replicate 13 .handler

/-- The target where the start is deferred, at the next entry, and where the start is pulled. -/
def deferringTarget : Config := targetState anyStep (deferralRun.take 12)

def reenteredTarget : Config := targetState anyStep (deferralRun.take 18)

def startingTarget : Config := targetState anyStep deferralRun

/-- The start is deferred in the interrupt: nothing has been executed, the queue and the saved
registers are untouched, and the first arrival in thread mode pulls it. -/
theorem debugHandler_commandOrder_deferralRun :
    (executedCommands startingTarget.dev.mon.events <+:
        acceptedCommands startingTarget.dev.mon.events ∧
      executedCommands startingTarget.dev.mon.events ++ startingTarget.dev.mon.gCmdQueue.toList =
        [.startFirmware]) ∧
    (startingTarget.line = .pull .startFirmware ∧ startingTarget.dev.mon.cmd = .startFirmware ∧
      startingTarget.dev.mon.gCmdQueue.pull.1 = some .startFirmware) ∧
    (deferringTarget.line = .testContext .firmware ∧
      deferringTarget.dev.mon.interruptActive = true ∧
      DeferredHistory .startFirmware [.entered false false, .reachedLoop false] ∧
      arrivedAt .firmware startingTarget.dev.mon startingTarget.line) ∧
    (debugHandler reenteredTarget.line reenteredTarget.dev).2.mon.gCmdQueue =
        reenteredTarget.dev.mon.gCmdQueue ∧
      reenteredTarget.dev.mon.gCmdQueue.toList.head? = some .startFirmware ∧
      (debugHandler reenteredTarget.line reenteredTarget.dev).2.context =
        reenteredTarget.dev.context := by
  have hstart : startingTarget.line = .pull .startFirmware := by decide +kernel
  have hdefer : deferringTarget.line = .testContext .firmware := by decide +kernel
  have hactive : deferringTarget.dev.mon.interruptActive = true := by decide +kernel
  have hrun : TargetRun anyStep blankMemory bootSymbols (deferralRun.take 12) deferringTarget :=
    targetState_run [] _ (by decide +kernel)
  have hwhole : TargetRun anyStep blankMemory bootSymbols deferralRun startingTarget :=
    targetState_run [] deferralRun (by decide +kernel)
  obtain ⟨hfront, hqueue, hpull, -⟩ := debugHandler_commandOrder hwhole
  have hlater := (debugHandler_commandOrder hrun).2.2.2 .firmware hdefer hactive
  obtain ⟨new, hev, hhistory, -, harrived, -⟩ := hlater (deferralRun.drop 12) startingTarget
    (targetState_run (deferralRun.take 12) (deferralRun.drop 12) (by decide +kernel))
  obtain ⟨mid, hev', -, hhead, -, hframe⟩ := hlater ((deferralRun.take 18).drop 12)
    reenteredTarget (targetState_run (deferralRun.take 12) _ (by decide +kernel))
  obtain rfl : new = [.entered false false, .reachedLoop false] :=
    List.append_cancel_left (hev.symm.trans (by decide +kernel))
  obtain rfl : mid = [.entered false false] :=
    List.append_cancel_left (hev'.symm.trans (by decide +kernel))
  have hentry : ∀ e ∈ [MonitorEvent.entered false false], e.IsEntry := by
    intro e he
    obtain rfl := List.mem_singleton.mp he
    exact .intro false false
  obtain ⟨hkept, hcontext⟩ := hframe hentry
  have haccepted : acceptedCommands startingTarget.dev.mon.events = [.startFirmware] := by
    decide +kernel
  exact ⟨⟨hfront, hqueue.trans haccepted⟩, ⟨hstart, hpull _ hstart⟩,
    ⟨hdefer, hactive, hhistory, harrived _ hentry rfl⟩,
    hkept, hhead rfl, hcontext⟩

end BluePill
