import BluePill.Firmware.Device

/-! `DebugHandler` and `flashEraseLoop` of `Debug.cpp`, one statement at a time. Packets of the
host are handled by an interrupt of higher priority and may come between any two statements. -/
namespace BluePill
open Lib

/-- The commands that send thread mode to other code. -/
inductive Start where
  | localLoop | eraseLoop | firmware
  deriving DecidableEq, Repr

def Start.command : Start → DebugHandlerCommand
  | .localLoop => .startLocalLoop
  | .eraseLoop => .startEraseLoop
  | .firmware => .startFirmware

/-- Statements of `DebugHandler`, in the order of the source. -/
inductive Line where
  /-- The handler is not active. -/
  | outside
  | testInterrupt
  -- interrupted code is an interrupt handler
  | irqTestStep | irqTestBkpt
  | irqClearStep | irqClearExit | irqClearMonStep | irqClearBasepri
  | irqTestOne | irqSetTwo | irqSetExit | irqSetBasepri
  | irqTestExit
  -- interrupted code is thread mode
  | threadTestTwo | threadSetThree
  | threadTestThree | threadClearStep | threadClearBasepri
  | threadTestExit | threadClearMonStep | threadClearExit
  -- `DEMCR |= MON_STEP; DEMCR &= ~MON_PEND; return`, which the source has in five places
  | armMonStep | clearMonPend
  | clearStep
  | testMonReq | reqClearPend | reqTestEmpty
  | testEmpty | setBreakpoint
  -- the command loop
  | declareCmd | get | wfi | switch
  | pull (c : DebugHandlerCommand)
  | haltSetRequest
  | resumeClearMonStep
  | stepTestContext | stepSetOne | stepClearBkpt | stepSetMonStep | stepClearPend
  | loopSetRunning
  | testContext (s : Start)
  | deferExit
  | disableUserInterrupts (s : Start)
  | readStackPointer | readResetAddress | testResetAddress | testResetCmd
  | setPc (s : Start) | setLr (s : Start) | setSp (s : Start)
  | preSetMonStep
  | setXpsr (s : Start)
  | startSetMonStep (s : Start)
  | startClearPend (s : Start)
  | startSetRunning
  | allowTransfer
  | loopTest
  | finalTestEmpty | finalClearPend
  | leave
  /-- `default: while(true){};` -/
  | hang
  deriving DecidableEq, Repr

def userCodeVectorTable : ℕ := 0x8004000
def lastFirmwareAddress : ℕ := 0x8020000

/-- Where thread mode continues after each of the three commands. -/
def Start.thread : Start → ThreadCode
  | .localLoop => .localLoop
  | .eraseLoop => .eraseLoop .disableIrq19
  | .firmware => .user

def Start.pc (d : Device) : Start → UInt32
  | .localLoop => d.symbols.debugLocalLoop
  | .eraseLoop => d.symbols.flashEraseLoop
  | .firmware => UInt32.ofNat d.mon.resetAddress

def Start.sp (d : Device) : Start → UInt32
  | .localLoop => 0x20005000
  | .eraseLoop => 0x20005000
  | .firmware => UInt32.ofNat d.mon.stackPointer

/-- The statement after `gCmdQueue.pull(cmd)` in each case of the switch. -/
def afterPull : DebugHandlerCommand → Line
  | .nop => .hang
  | .halt => .haltSetRequest
  | .resume => .resumeClearMonStep
  | .resumeStep => .stepTestContext
  | .startFirmware => .disableUserInterrupts .firmware
  | .startLocalLoop => .disableUserInterrupts .localLoop
  | .startEraseLoop => .disableUserInterrupts .eraseLoop

/-- The case label `cmd` selects. -/
def caseOf : DebugHandlerCommand → Line
  | .nop => .hang
  | .halt => .pull .halt
  | .resume => .pull .resume
  | .resumeStep => .pull .resumeStep
  | .startFirmware => .testContext .firmware
  | .startLocalLoop => .testContext .localLoop
  | .startEraseLoop => .testContext .eraseLoop

/-- `gCmdQueue.pull(cmd)` in the case of the command `c`. -/
def Monitor.pullCmd (m : Monitor) (c : DebugHandlerCommand) : Monitor :=
  { m with
    gCmdQueue := m.gCmdQueue.pull.2
    cmd := m.gCmdQueue.pull.1.getD m.cmd
    events := m.events ++ [.executed c] }

/-- One statement of `DebugHandler`: the next statement and the state after it. -/
def debugHandler (l : Line) (d : Device) : Line × Device :=
  let m := d.mon
  match l with
  | .outside => (.outside, d)
  | .testInterrupt => (if m.interruptActive then .irqTestStep else .threadTestTwo, d)
  | .irqTestStep => (if m.stepOnThread ≠ 0 then .irqTestBkpt else .irqTestOne, d)
  | .irqTestBkpt => (if m.dfsrBkpt then .irqClearStep else .irqTestOne, d)
  | .irqClearStep => (.irqClearExit, { d with mon := { m with stepOnThread := 0 } })
  | .irqClearExit => (.irqClearMonStep, { d with mon := { m with exitFromInterrupt := false } })
  | .irqClearMonStep => (.irqClearBasepri, { d with mon := { m with monStep := false } })
  | .irqClearBasepri => (.irqTestOne, { d with mon := { m with basepri := 0 } })
  | .irqTestOne => (if m.stepOnThread = 1 then .irqSetTwo else .irqTestExit, d)
  | .irqSetTwo => (.irqSetExit, { d with mon := { m with stepOnThread := 2 } })
  | .irqSetExit => (.irqSetBasepri, { d with mon := { m with exitFromInterrupt := true } })
  | .irqSetBasepri => (.irqTestExit, { d with mon := { m with basepri := 0x30 } })
  | .irqTestExit => (if m.exitFromInterrupt then .armMonStep else .clearStep, d)
  | .threadTestTwo => (if m.stepOnThread = 2 then .threadSetThree else .threadTestThree, d)
  | .threadSetThree => (.armMonStep, { d with mon := { m with stepOnThread := 3 } })
  | .threadTestThree => (if m.stepOnThread = 3 then .threadClearStep else .threadTestExit, d)
  | .threadClearStep => (.threadClearBasepri, { d with mon := { m with stepOnThread := 0 } })
  | .threadClearBasepri => (.threadTestExit, { d with mon := { m with basepri := 0 } })
  | .threadTestExit => (if m.exitFromInterrupt then .threadClearMonStep else .clearStep, d)
  | .threadClearMonStep => (.threadClearExit, { d with mon := { m with monStep := false } })
  | .threadClearExit => (.clearStep, { d with mon := { m with exitFromInterrupt := false } })
  | .armMonStep => (.clearMonPend, { d with mon := { m with monStep := true } })
  | .clearMonPend => (.leave, { d with mon := { m with monPend := false } })
  | .clearStep => (.testMonReq, { d with mon := { m with stepOnThread := 0 } })
  | .testMonReq => (if m.monReq then .reqClearPend else .testEmpty, d)
  | .reqClearPend => (.reqTestEmpty, { d with mon := { m with monPend := false } })
  | .reqTestEmpty => (if m.gCmdQueue.isEmpty then .leave else .declareCmd, d)
  | .testEmpty => (if m.gCmdQueue.isEmpty then .setBreakpoint else .declareCmd, d)
  | .setBreakpoint => (.declareCmd, { d with mon := { m with gHaltState := .breakpoint } })
  | .declareCmd => (.get, { d with mon := { m with
      cmd := .nop
      events := m.events ++ [.reachedLoop m.interruptActive] } })
  | .get =>
    match m.gCmdQueue.get with
    | some c => (.switch, { d with mon := { m with cmd := c } })
    | none => (.wfi, d)
  | .wfi => (.loopTest, d)
  | .switch => (caseOf m.cmd, d)
  | .pull c => (afterPull c, { d with mon := m.pullCmd c })
  | .haltSetRequest => (.loopTest, { d with mon := { m with gHaltState := .request } })
  | .resumeClearMonStep => (.loopSetRunning, { d with mon := { m with monStep := false } })
  | .stepTestContext => (if m.interruptActive then .stepClearBkpt else .stepSetOne, d)
  | .stepSetOne => (.stepClearBkpt, { d with mon := { m with stepOnThread := 1 } })
  | .stepClearBkpt => (.stepSetMonStep, { d with mon := { m with dfsrBkpt := false } })
  | .stepSetMonStep => (.stepClearPend, { d with mon := { m with monStep := true } })
  | .stepClearPend => (.loopSetRunning, { d with mon := { m with monPend := false } })
  | .loopSetRunning => (.loopTest, { d with mon := { m with gHaltState := .running } })
  | .testContext s => (if m.interruptActive then .deferExit else .pull s.command, d)
  | .deferExit => (.armMonStep, { d with mon := { m with exitFromInterrupt := true } })
  -- the interrupts of the user program are not part of the state
  | .disableUserInterrupts s => (if s = .firmware then .readStackPointer else .setPc s, d)
  | .readStackPointer =>
    (.readResetAddress, { d with mon := { m with stackPointer := d.word userCodeVectorTable } })
  | .readResetAddress => (.testResetAddress,
      { d with mon := { m with resetAddress := d.word (userCodeVectorTable + 4) } })
  -- before this test the source reads all of user flash and drops the values
  | .testResetAddress =>
    (if m.resetAddress > userCodeVectorTable ∧ m.resetAddress < lastFirmwareAddress
      then .testResetCmd else .loopTest, d)
  | .testResetCmd =>
    (if d.word m.resetAddress ≠ 0xFFFFFFFF then .setPc .firmware else .loopTest, d)
  -- the return from the handler continues at the new pc
  | .setPc s => (.setLr s, { d with
      context := d.context.set pcIndex (s.pc d)
      mon := { m with thread := s.thread } })
  | .setLr s => (.setSp s, { d with context := d.context.set lrIndex d.context[pcIndex] })
  | .setSp s => (if s = .localLoop then .preSetMonStep else .setXpsr s,
      { d with context := d.context.set spIndex (s.sp d) })
  | .preSetMonStep => (.setXpsr .localLoop, { d with mon := { m with monStep := true } })
  | .setXpsr s => (if s = .eraseLoop then .startClearPend s else .startSetMonStep s,
      { d with context := d.context.set xpsrIndex ((d.context[pcIndex] &&& 0x01) <<< 24) })
  | .startSetMonStep s => (.startClearPend s, { d with mon := { m with monStep := true } })
  | .startClearPend s => (if s = .firmware then .allowTransfer else .startSetRunning,
      { d with mon := { m with monPend := false } })
  | .startSetRunning => (.leave, { d with mon := { m with gHaltState := .running } })
  | .allowTransfer => (.leave, { d with allowUsbTransfer := true })
  | .loopTest => (if m.gHaltState ≠ .running then .get else .finalTestEmpty, d)
  | .finalTestEmpty => (if m.gCmdQueue.isEmpty then .finalClearPend else .leave, d)
  | .finalClearPend => (.leave, { d with mon := { m with monPend := false } })
  | .leave => (.outside, { d with mon := { m with stepTaken := false } })
  | .hang => (.hang, d)

/-- The inner `for` of `flashEraseLoop`: no word of the 0x400 bytes from `curAddress` on
differs from `0xFFFFFFFF`. -/
def windowBlank (d : Device) (curAddress : ℕ) : Bool :=
  (List.range 256).all fun i => d.word (curAddress + 4 * i) == 0xFFFFFFFF

/-- The first test of the loop body, with the constants of the source. -/
def addressRejected (p : FlashEraseParams) : Bool :=
  decide (p.address < 0x8004000 ∨ p.address > 0x80020000)

/-- The second test. -/
def lastRejected (p : FlashEraseParams) : Bool := decide (p.lastAddress > 0x80020000)

/-- One statement of `flashEraseLoop`. -/
def flashEraseLoop (l : EraseLine) (d : Device) : EraseLine × Device :=
  let m := d.mon
  match l with
  | .disableIrq19 => (.disableIrq20, { d with mon := { m with irq19 := false } })
  | .disableIrq20 => (.pull, { d with mon := { m with irq20 := false } })
  | .pull =>
    match m.gEraseParams.pull with
    | (some p, q) => (.checkAddress p, { d with
        mon := { m with gEraseParams := q }
        flashLog := d.flashLog ++ [.erasePulled p] })
    | (none, _) => (.enableIrq19, d)
  | .checkAddress p => (if addressRejected p then .enableIrq19 else .checkLast p, d)
  | .checkLast p => (if lastRejected p then .enableIrq19 else .pageTest p p.address, d)
  | .pageTest p cur => (if cur < p.lastAddress then .blankCheck p cur else .pull, d)
  | .blankCheck p cur => (.erasePage p cur (!windowBlank d cur), d)
  | .erasePage p cur erase => (.nextPage p cur, if erase then d.flashErasePage cur else d)
  | .nextPage p cur => (.pageTest p ((cur + 0x400) % 4294967296), d)
  | .enableIrq19 => (.enableIrq20, { d with mon := { m with irq19 := true } })
  | .enableIrq20 => (.startLocalLoop, { d with mon := { m with irq20 := true } })
  | .startLocalLoop => (.spin, d.debugStartLocalLoop.2)
  | .spin => (.spin, d)

end BluePill
