import BluePill.Host.TargetsInit

/-! Run control and attaching in `TargetSTM32F1.cpp` and `TargetsInit.cpp`. What the device answers
to anything but the question for its state is dropped. -/
namespace BluePill
open Lib

inductive AttachCommand
  | attach | detach
  deriving DecidableEq, Repr

def AttachCommand.toByte : AttachCommand → UInt8
  | .attach => 0
  | .detach => 1

variable {σ : Type} (interface : TargetInterface σ)

/-- `attachDetach`: the state of an accepted reply, else false. -/
def TargetSTM32F1.attachDetach (command : AttachCommand) (h : Host σ) :
    Except Fault (Bool × Host σ) := do
  let out ← h.outBuf.store 0 [DebugCommand.attach.toByte, command.toByte]
  let (rxSize, h) ← TargetSTM32F1.sendAndReceive interface SubCmdHead.size { h with outBuf := out }
  if rxSize < SubCmdHead.size then return (false, h)
  let cmdHead ← readHead SubCmdHead.decode h.outBuf.val
  let ansHead ← readHead SubCmdHead.decode h.inBuf.val
  if ansHead.cmd ≠ cmdHead.cmd then return (false, h)
  if ansHead.sub ≠ cmdHead.sub then return (false, h)
  let state ← readBytes h.inBuf.val 2 1
  return (state.head? != some 0, h)

def stm32Attach (h : Host σ) : Except Fault (Bool × Host σ) := do
  let (_, h) ← TargetSTM32F1.attachDetach interface .attach h
  return (true, h)

def stm32Detach (h : Host σ) : Except Fault (Unit × Host σ) := do
  let (_, h) ← TargetSTM32F1.attachDetach interface .detach h
  return ((), h)

def stm32Reset (h : Host σ) : Except Fault (Unit × Host σ) := do
  let (_, h) ← TargetSTM32F1.resetHaltResume interface .resetAndHalt h
  return ((), h)

def stm32HaltRequest (h : Host σ) : Except Fault (Unit × Host σ) := do
  let (_, h) ← TargetSTM32F1.resetHaltResume interface .haltOnly h
  return ((), h)

def stm32HaltResume (step : Bool) (h : Host σ) : Except Fault (Unit × Host σ) := do
  let (_, h) ← TargetSTM32F1.resetHaltResume interface (if step then .resumeStep else .resume) h
  return ((), h)

/-- `enum target_halt_reason`; a byte of no member keeps its number. -/
inductive TargetHaltReason
  | running | error | request | stepping | breakpoint | watchpoint | fault
  | other (n : UInt8)
  deriving DecidableEq, Repr

/-- `ResetHaltState::Undefined`. -/
abbrev haltStateUndefined : UInt8 := 7

def TargetHaltReason.ofByte (b : UInt8) : TargetHaltReason :=
  if b = 0 then .running else if b = 1 then .error else if b = 2 then .request
  else if b = 3 then .stepping else if b = 4 then .breakpoint else if b = 5 then .watchpoint
  else if b = 6 then .fault else .other b

/-- `stm32_halt_poll`: the state of the device is cast to a reason. `watch` is always zero. -/
def stm32HaltPoll (h : Host σ) : Except Fault (TargetHaltReason × Host σ) := do
  let (state, h) ← TargetSTM32F1.resetHaltResume interface .getState h
  return (.ofByte (state.getD haltStateUndefined), h)

end BluePill
