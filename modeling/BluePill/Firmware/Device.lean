import BluePill.Lib.Overlay
import BluePill.Firmware.CircularBuffer
import BluePill.Firmware.DbgCommands

/-! The state of the target: the debug monitor, the saved context, the address space and the
USB buffers. Fields called `events`, `flashLog` and `accesses` are histories that no code
reads. -/
namespace BluePill
open Lib

inductive DebugHandlerCommand where
  | nop | halt | resume | resumeStep | startFirmware | startLocalLoop | startEraseLoop
  deriving DecidableEq, Repr, Inhabited

structure FlashEraseParams where
  address : ℕ
  size : ℕ
  deriving DecidableEq, Repr, Inhabited

/-- `lastAddress = address + size` in `uint32_t`. -/
def FlashEraseParams.lastAddress (p : FlashEraseParams) : ℕ := (p.address + p.size) % 4294967296

/-- Statements of `flashEraseLoop`, with the local variables that are live there. -/
inductive EraseLine where
  | disableIrq19
  | disableIrq20
  | pull
  | checkAddress (params : FlashEraseParams)
  | checkLast (params : FlashEraseParams)
  | pageTest (params : FlashEraseParams) (curAddress : ℕ)
  | blankCheck (params : FlashEraseParams) (curAddress : ℕ)
  | erasePage (params : FlashEraseParams) (curAddress : ℕ) (erase : Bool)
  | nextPage (params : FlashEraseParams) (curAddress : ℕ)
  | enableIrq19
  | enableIrq20
  | startLocalLoop
  | spin
  deriving DecidableEq, Repr

/-- What thread mode executes: the user program (or the bootloader's idle loop), the loop of
`debugLocalLoop`, or `flashEraseLoop` at one of its statements. -/
inductive ThreadCode where
  | user
  | localLoop
  | eraseLoop (line : EraseLine)
  deriving DecidableEq, Repr

inductive MonitorEvent where
  /-- A put into `gCmdQueue` succeeded. -/
  | accepted (c : DebugHandlerCommand)
  /-- `DebugHandler` acted on `c` and pulled it. -/
  | executed (c : DebugHandlerCommand)
  /-- The monitor exception was taken; `DFSR.BKPT` as it was then. -/
  | entered (interruptActive bkpt : Bool)
  /-- `DebugHandler` got to its command loop. -/
  | reachedLoop (interruptActive : Bool)
  deriving DecidableEq, Repr

/-- Statics, locals and core registers of the debug monitor. -/
structure Monitor where
  stepOnThread : ℕ
  exitFromInterrupt : Bool
  gHaltState : ResetHaltState
  gCmdQueue : CircularBuffer DebugHandlerCommand 16
  gEraseParams : CircularBuffer FlashEraseParams 4
  /-- `DEMCR.MON_PEND`, `DEMCR.MON_STEP`, `DEMCR.MON_REQ`. -/
  monPend : Bool
  monStep : Bool
  monReq : Bool
  /-- `DFSR.BKPT`. -/
  dfsrBkpt : Bool
  basepri : ℕ
  irq19 : Bool
  irq20 : Bool
  thread : ThreadCode
  /-- Under `MON_STEP`: the one instruction since the handler returned has been executed. -/
  stepTaken : Bool
  interruptActive : Bool
  cmd : DebugHandlerCommand
  stackPointer : ℕ
  resetAddress : ℕ
  events : List MonitorEvent

/-- `context_data` of `LoLevelDebug.s`: r0..r12, sp, lr, pc, xpsr, then msp and psp. -/
abbrev ContextData := Vector UInt32 19

abbrev spIndex : Fin 19 := 13
abbrev lrIndex : Fin 19 := 14
abbrev pcIndex : Fin 19 := 15
abbrev xpsrIndex : Fin 19 := 16

/-- Addresses the linker gave to two functions of the bootloader. -/
structure Symbols where
  debugLocalLoop : UInt32
  flashEraseLoop : UInt32
  deriving DecidableEq, Repr

/-- A USB buffer of `BULK_EP_MAXPACKET` bytes. -/
def Frame := { bytes : List UInt8 // bytes.length = 64 }

namespace Frame

/-- Write `bytes` at offset `off`. -/
def store (f : Frame) (off : ℕ) (bytes : List UInt8) : Except Fault Frame :=
  if h : off + bytes.length ≤ 64 then
    .ok ⟨f.val.take off ++ bytes ++ f.val.drop (off + bytes.length), by
      have := f.property
      simp only [List.length_append, List.length_take, List.length_drop]
      omega⟩
  else .error .outOfBounds

/-- The buffer after a packet was received into it: the rest keeps its old content. -/
def receive (f : Frame) (packet : List UInt8) : Frame :=
  ⟨(packet.take 64) ++ f.val.drop (packet.take 64).length, by
    have := f.property
    simp only [List.length_append, List.length_take, List.length_drop]
    omega⟩

def zero : Frame := ⟨List.replicate 64 0, by simp⟩

theorem store_ok (f : Frame) (off : ℕ) (bytes : List UInt8) (h : off + bytes.length ≤ 64) :
    ∃ g : Frame, f.store off bytes = .ok g ∧
      g.val = f.val.take off ++ bytes ++ f.val.drop (off + bytes.length) :=
  ⟨_, dif_pos h, rfl⟩

theorem receive_val (f : Frame) {packet : List UInt8} (h : packet.length ≤ 64) :
    (f.receive packet).val = packet ++ f.val.drop packet.length := by
  simp [receive, List.take_of_length_le h]

end Frame

inductive FlashEvent where
  /-- An entry was put into `gEraseParams`. -/
  | eraseQueued (params : FlashEraseParams)
  /-- `flashEraseLoop` pulled an entry. -/
  | erasePulled (params : FlashEraseParams)
  /-- `flash_erase_page`. -/
  | pageErased (address : ℕ)
  /-- `flash_program_half_word`. -/
  | programmed (address data : ℕ)
  deriving DecidableEq, Repr

/-- One load or store of the device to the address range a packet names. -/
structure Access where
  address : ℕ
  width : ℕ
  deriving DecidableEq, Repr

structure Device where
  mon : Monitor
  context : ContextData
  symbols : Symbols
  mem : ℕ → UInt8
  fpCtrl : UInt32
  fpComp : Vector UInt32 8
  usbCmdFrame : Frame
  usbAnsFrame : Frame
  /-- The reply waiting in the IN endpoint until the host collects it. -/
  inEndpoint : Option (List UInt8)
  usbInitialized : Bool
  allowUsbTransfer : Bool
  flashLog : List FlashEvent
  accesses : List Access

/-- The little-endian word at `a`. -/
def Device.word (d : Device) (a : ℕ) : ℕ := ofLE (readRange d.mem a 4)

/-- Size of a flash page. -/
abbrev pageSize : ℕ := 1024

def pageBase (a : ℕ) : ℕ := a / pageSize * pageSize

/-- The half-word at `address` takes `data` only where it reads `0xFFFF`. -/
def programHalfWord (mem : ℕ → UInt8) (address data : ℕ) : ℕ → UInt8 :=
  if mem address = 0xFF ∧ mem (address + 1) = 0xFF then overlay mem address (toLE 2 data) else mem

/-- `flash_program_half_word`. -/
def Device.flashProgramHalfWord (d : Device) (address data : ℕ) : Device :=
  { d with
    mem := programHalfWord d.mem address data
    flashLog := d.flashLog ++ [.programmed address data] }

/-- `flash_erase_page`: the page that holds `address` reads `0xFF` afterwards. -/
def Device.flashErasePage (d : Device) (address : ℕ) : Device :=
  { d with
    mem := fill d.mem (pageBase address) (pageBase address + pageSize) 0xFF
    flashLog := d.flashLog ++ [.pageErased address] }

/-- Put a command and set `MON_PEND`: the body the five request functions share. -/
def Monitor.request (m : Monitor) (c : DebugHandlerCommand) : Bool × Monitor :=
  let put := m.gCmdQueue.put c
  (put.1, { m with
    gCmdQueue := put.2
    events := if put.1 then m.events ++ [.accepted c] else m.events
    monPend := true })

def Device.debugHaltRequest (d : Device) : Bool × Device :=
  ((d.mon.request .halt).1, { d with mon := (d.mon.request .halt).2 })

def Device.debugResume (d : Device) (step : Bool) : Bool × Device :=
  let c := if step then .resumeStep else .resume
  ((d.mon.request c).1, { d with mon := (d.mon.request c).2 })

def Device.debugStartFirmware (d : Device) : Bool × Device :=
  ((d.mon.request .startFirmware).1, { d with mon := (d.mon.request .startFirmware).2 })

def Device.debugStartLocalLoop (d : Device) : Bool × Device :=
  ((d.mon.request .startLocalLoop).1, { d with mon := (d.mon.request .startLocalLoop).2 })

/-- Both puts are made whatever the first one says. -/
def Device.debugStartEraseLoop (d : Device) (address size : ℕ) : Bool × Device :=
  let params : FlashEraseParams := ⟨address, size⟩
  let erase := d.mon.gEraseParams.put params
  let req := { d.mon with gEraseParams := erase.2 }.request .startEraseLoop
  (erase.1 && req.1, { d with
    mon := req.2
    flashLog := if erase.1 then d.flashLog ++ [.eraseQueued params] else d.flashLog })

/-- The state after reset: empty queues, the monitor enabled, the USB interrupts on. -/
def Monitor.initial : Monitor where
  stepOnThread := 0
  exitFromInterrupt := false
  gHaltState := .running
  gCmdQueue := .empty
  gEraseParams := .empty
  monPend := false
  monStep := false
  monReq := false
  dfsrBkpt := false
  basepri := 0
  irq19 := true
  irq20 := true
  thread := .user
  stepTaken := false
  interruptActive := false
  cmd := .nop
  stackPointer := 0
  resetAddress := 0
  events := []

/-- After reset, with any memory content and any link addresses. -/
def Device.initial (mem : ℕ → UInt8) (symbols : Symbols) : Device where
  mon := .initial
  context := Vector.replicate 19 0
  symbols := symbols
  mem := mem
  fpCtrl := 0
  fpComp := Vector.replicate 8 0
  usbCmdFrame := .zero
  usbAnsFrame := .zero
  inEndpoint := none
  usbInitialized := false
  allowUsbTransfer := false
  flashLog := []
  accesses := []

end BluePill
