import BluePill.Lib.Runs
import BluePill.Firmware.Commands
import BluePill.Firmware.DebugHandler

/-! The target as one machine: packets of the host, entries and statements of `DebugHandler`,
statements of `flashEraseLoop`, and what the user program may do. -/
namespace BluePill
open Lib

/-- What the user program, or an exception it causes, does to the state. -/
inductive UserAction where
  /-- It changes memory. -/
  | store (mem : ℕ → UInt8)
  /-- A breakpoint is hit: the core sets `DFSR.BKPT`. -/
  | breakpoint
  /-- The fault handlers and the watchdog handler: `DEMCR |= MON_PEND | MON_STEP`. -/
  | fault
  /-- The system call `sysCallReset`. -/
  | sysCallReset

inductive Event where
  /-- The USB interrupt handles a packet of the host. -/
  | usb (packet : List UInt8)
  /-- The host collects the reply in the IN endpoint. -/
  | collect
  /-- The monitor exception is taken; `regs` is the interrupted context, r0..xpsr. -/
  | enter (regs : Vector UInt32 17)
  /-- The next statement of `DebugHandler`. -/
  | handler
  /-- The next statement of `flashEraseLoop`. -/
  | thread
  | user (action : UserAction)

structure Config where
  line : Line
  dev : Device

/-- `xpsr & 0xFF`: the number of the interrupted exception, zero in thread mode. -/
def exceptionActive (regs : Vector UInt32 17) : Bool := regs[(16 : Fin 17)] &&& 0xFF != 0

/-- The monitor exception can be taken. The user program may run into a breakpoint anywhere;
in the bootloader's own loops none is armed and the interrupts of the user program are off. -/
def Monitor.canEnter (m : Monitor) (regs : Vector UInt32 17) : Bool :=
  m.thread == .user || ((m.monPend || m.monStep) && !exceptionActive regs)

/-- Taking the exception clears `MON_PEND`. -/
def enterHandler (d : Device) (regs : Vector UInt32 17) : Device :=
  let active := exceptionActive regs
  { d with
    context := Vector.ofFn fun i : Fin 19 => if h : i.val < 17 then regs[i.val] else d.context[i]
    mon := { d.mon with
      monPend := false
      interruptActive := active
      events := d.mon.events ++ [.entered active d.mon.dfsrBkpt] } }

/-- The loop statement may run: the monitor is not pending, and a single step is not spent. -/
def Monitor.threadRuns (m : Monitor) : Bool := !m.monPend && !(m.monStep && m.stepTaken)

def threadStep (l : EraseLine) (d : Device) : Device :=
  let r := flashEraseLoop l d
  { r.2 with mon := { r.2.mon with thread := .eraseLoop r.1, stepTaken := d.mon.monStep } }

def userStep (a : UserAction) (d : Device) : Device :=
  match a with
  | .store mem => { d with mem := mem }
  | .breakpoint => { d with mon := { d.mon with dfsrBkpt := true } }
  | .fault => { d with mon := { d.mon with monPend := true, monStep := true } }
  | .sysCallReset => (d.debugStartFirmware.2.debugResume false).2

/-- One event of the target; `none` where it is not enabled. -/
def step (c : Config) (e : Event) : Option Config :=
  match e with
  | .usb packet =>
    if c.dev.mon.irq20 then
      match usbDataOutCallback packet c.dev with
      | .ok d => some { c with dev := d }
      | .error _ => none
    else none
  | .collect => some { c with dev := { c.dev with inEndpoint := none } }
  | .enter regs =>
    if c.line = .outside ∧ c.dev.mon.canEnter regs then
      some ⟨.testInterrupt, enterHandler c.dev regs⟩
    else none
  | .handler =>
    if c.line = .outside then none
    else some ⟨(debugHandler c.line c.dev).1, (debugHandler c.line c.dev).2⟩
  | .thread =>
    match c.dev.mon.thread with
    | .eraseLoop l =>
      if c.line = .outside ∧ c.dev.mon.threadRuns then some { c with dev := threadStep l c.dev }
      else none
    | _ => none
  | .user a =>
    if c.line = .outside ∧ c.dev.mon.thread = .user then
      some { c with dev := userStep a c.dev }
    else none

/-- The target after reset. -/
def Config.initial (mem : ℕ → UInt8) (symbols : Symbols) : Config :=
  ⟨.outside, .initial mem symbols⟩

/-- A run of the target from reset, every step of which meets `ok`. -/
abbrev TargetRun (ok : Config → Event → Prop) (mem : ℕ → UInt8) (symbols : Symbols) :
    List Event → Config → Prop :=
  Run step ok (Config.initial mem symbols)

end BluePill
