import BluePill.Firmware.Memory

/-! The packet handlers of the bootloader's `main.cpp`. A handler gets the bytes that lie at
`inBuf`, the received size, and the reply buffer; it returns the size of the reply, the reply
buffer and the device. -/
namespace BluePill
open Lib

/-- `(align - 1) & align` of zero is zero, so zero passes as valid. -/
def getValidatedAlign (align : ℕ) : ℕ := if (align - 1) &&& align = 0 then align else 1

/-- `~(align - 1)` in `size_t`. -/
def alignMask (align : ℕ) : ℕ := 4294967295 - (align + 4294967295) % 4294967296

def payloadSize (headSize maxBufferSize requiredDataSize align : ℕ) : ℕ :=
  if headSize > maxBufferSize then 0
  else
    let maxPayloadSize := maxBufferSize - headSize
    let minAlignSize := getValidatedAlign align
    let payload := if maxPayloadSize < requiredDataSize then maxPayloadSize else requiredDataSize
    payload &&& alignMask minAlignSize

/-- The head is there and carries the command. -/
def dbgHeadValid (headSize : ℕ) (inBuf : List UInt8) (inSize : ℕ) (cmd : DebugCommand) :
    Except Fault Bool :=
  if headSize > inSize then .ok false
  else match inBuf with
    | [] => .error .outOfBounds
    | c :: _ => .ok (c == cmd.toByte)

/-- A `reinterpret_cast` of the buffer to a head. -/
def readHead {α : Type} (decode : List UInt8 → Option α) (buf : List UInt8) : Except Fault α :=
  match decode buf with
  | some h => .ok h
  | none => .error .outOfBounds

/-- The bytes `[off, off + n)` of a buffer. -/
def readBytes (buf : List UInt8) (off n : ℕ) : Except Fault (List UInt8) :=
  if off + n ≤ buf.length then .ok ((buf.drop off).take n) else .error .outOfBounds

abbrev HandlerResult := Except Fault (ℕ × Frame × Device)

def isFlashRegion (address : ℕ) : Bool := decide (0x08004000 ≤ address ∧ address < 0x08020000)

/-- The loop of `flashWrite` from `dataIndex` on: it takes two bytes each round, also when
only one is left. `flash_unlock` leaves an unlocked controller as it is. -/
def flashWriteLoop (address : ℕ) (data : List UInt8) (size dataIndex : ℕ) (d : Device) :
    Except Fault Device :=
  if dataIndex < size then
    match data[dataIndex]?, data[dataIndex + 1]? with
    | some lo, some hi =>
      let value := lo.toNat ||| (hi.toNat <<< 8)
      flashWriteLoop address data size (dataIndex + 2)
        (d.flashProgramHalfWord ((address + dataIndex) % 4294967296) value)
    | _, _ => .error .outOfBounds
  else .ok d
termination_by size - dataIndex

def flashWrite (address : ℕ) (data : List UInt8) (size : ℕ) (d : Device) : Except Fault Device :=
  flashWriteLoop address data size 0 d

/-- `*cdst++ = *csrc++` from the target range at `address` into the reply at `dst`. The target
pointer has 32 bits. -/
def copyFromTarget (address dst : ℕ) (w : AccessWidth) (off : ℕ) (s : Frame × Device) :
    Except Fault (Frame × Device) := do
  let src := (address + off) % 4294967296
  let frame ← s.1.store (dst + off) (readRange s.2.mem src w.bytes)
  return (frame, { s.2 with accesses := s.2.accesses ++ [⟨src, w.bytes⟩] })

/-- `*cdst++ = *csrc++` from the packet at `src` into the target range at `address`. -/
def copyToTarget (address : ℕ) (inBuf : List UInt8) (src : ℕ) (w : AccessWidth) (off : ℕ)
    (d : Device) : Except Fault Device := do
  let bytes ← readBytes inBuf (src + off) w.bytes
  let dst := (address + off) % 4294967296
  return { d with
    mem := overlay d.mem dst bytes
    accesses := d.accesses ++ [⟨dst, w.bytes⟩] }

def memoryReadCommand (inBuf : List UInt8) (inSize : ℕ) (outBuf : Frame) (outSize : ℕ)
    (d : Device) : HandlerResult := do
  if !(← dbgHeadValid MemReadWriteHead.size inBuf inSize .memoryRead) then return (0, outBuf, d)
  let cmdHead ← readHead MemReadWriteHead.decode inBuf
  let bytesToRead :=
    payloadSize MemReadWriteHead.size outSize cmdHead.byteCount cmdHead.align.toNat
  let ansHead : MemReadWriteHead :=
    ⟨DebugCommand.memoryRead.toByte, cmdHead.align, bytesToRead, cmdHead.address⟩
  let outBuf ← outBuf.store 0 ansHead.encode
  let accessible := checkMemRegionAccess cmdHead.address
    ((cmdHead.address + bytesToRead) % 4294967296) &&& 0x01
  if accessible ≠ 0 then
    let (outBuf, d) ← dbgMemcpy (copyFromTarget cmdHead.address MemReadWriteHead.size)
      bytesToRead cmdHead.align.toNat (outBuf, d)
    return (MemReadWriteHead.size + bytesToRead, outBuf, d)
  else
    let outBuf ← outBuf.store MemReadWriteHead.size (List.replicate bytesToRead 0xFF)
    return (MemReadWriteHead.size + bytesToRead, outBuf, d)

def memoryWriteCommand (inBuf : List UInt8) (inSize : ℕ) (outBuf : Frame) (_outSize : ℕ)
    (d : Device) : HandlerResult := do
  if !(← dbgHeadValid MemReadWriteHead.size inBuf inSize .memoryWrite) then return (0, outBuf, d)
  let cmdHead ← readHead MemReadWriteHead.decode inBuf
  let align := getValidatedAlign cmdHead.align.toNat
  let byteCountToWrite := payloadSize MemReadWriteHead.size inSize cmdHead.byteCount align
  let d ← if isFlashRegion cmdHead.address then
      flashWrite cmdHead.address (inBuf.drop MemReadWriteHead.size) byteCountToWrite d
    else
      dbgMemcpy (copyToTarget cmdHead.address inBuf MemReadWriteHead.size)
        byteCountToWrite align d
  let ansHead : MemReadWriteHead :=
    ⟨DebugCommand.memoryWrite.toByte, UInt8.ofNat align, byteCountToWrite, cmdHead.address⟩
  let outBuf ← outBuf.store 0 ansHead.encode
  return (MemReadWriteHead.size, outBuf, d)

/-- `regs->r[index]`: the words of `context_data` follow each other from r0 on. -/
def readReg (context : ContextData) (index : ℕ) : Except Fault UInt32 :=
  if h : index < 19 then .ok context[index] else .error .outOfBounds

def writeReg (context : ContextData) (index : ℕ) (value : UInt32) : Except Fault ContextData :=
  if h : index < 19 then .ok (context.set index value) else .error .outOfBounds

/-- `sizeof(ArmRegisters) / sizeof(uint32_t)`. -/
def maxRegIndex : ℕ := 17

def regsReadCommand (inBuf : List UInt8) (inSize : ℕ) (outBuf : Frame) (outSize : ℕ)
    (d : Device) : HandlerResult := do
  if !(← dbgHeadValid RegReadWriteHead.size inBuf inSize .regsRead) then return (0, outBuf, d)
  let cmdHead ← readHead RegReadWriteHead.decode inBuf
  let bytesToRead := payloadSize RegReadWriteHead.size outSize (cmdHead.regCount.toNat * 4) 4
  let regOffset := cmdHead.regIndex
  if regOffset > maxRegIndex then return (0, outBuf, d)
  let maxRegsToRead := maxRegIndex - regOffset + 1
  let regsToRead := if bytesToRead / 4 < maxRegsToRead then bytesToRead / 4 else maxRegsToRead
  let words ← (List.range regsToRead).mapM fun index => readReg d.context (index + regOffset)
  let outBuf ← outBuf.store RegReadWriteHead.size (words.flatMap fun v => toLE 4 v.toNat)
  let ansHead : RegReadWriteHead :=
    ⟨DebugCommand.regsRead.toByte, UInt8.ofNat regsToRead, regOffset⟩
  let outBuf ← outBuf.store 0 ansHead.encode
  return (RegReadWriteHead.size + bytesToRead, outBuf, d)

def regsWriteCommand (inBuf : List UInt8) (inSize : ℕ) (outBuf : Frame) (_outSize : ℕ)
    (d : Device) : HandlerResult := do
  if !(← dbgHeadValid RegReadWriteHead.size inBuf inSize .regsWrite) then return (0, outBuf, d)
  let cmdHead ← readHead RegReadWriteHead.decode inBuf
  let bytesToWrite := payloadSize RegReadWriteHead.size inSize (cmdHead.regCount.toNat * 4) 4
  let regOffset := cmdHead.regIndex
  if regOffset > maxRegIndex then return (0, outBuf, d)
  let maxRegsToWrite := maxRegIndex - regOffset + 1
  let regsToWrite :=
    if bytesToWrite / 4 < maxRegsToWrite then bytesToWrite / 4 else maxRegsToWrite
  let context ← (List.range regsToWrite).foldlM (fun context index => do
    let word ← readBytes inBuf (RegReadWriteHead.size + 4 * index) 4
    writeReg context (index + regOffset) (UInt32.ofNat (ofLE word))) d.context
  let ansHead : RegReadWriteHead :=
    ⟨DebugCommand.regsWrite.toByte, UInt8.ofNat regsToWrite, regOffset⟩
  let outBuf ← outBuf.store 0 ansHead.encode
  return (RegReadWriteHead.size, outBuf, { d with context := context })

def resetHaltCommand (inBuf : List UInt8) (inSize : ℕ) (outBuf : Frame) (_outSize : ℕ)
    (d : Device) : HandlerResult := do
  if !(← dbgHeadValid SubCmdHead.size inBuf inSize .resetHalt) then return (0, outBuf, d)
  let cmdHead ← readHead SubCmdHead.decode inBuf
  let cmd := ResetHaltCommand.ofByte cmdHead.sub
  let haltState := if cmd = some .getState then d.mon.gHaltState else .running
  let outBuf ← outBuf.store 0
    [DebugCommand.resetHalt.toByte, cmdHead.sub, haltState.toByte, 0]
  let d := match cmd with
    | some .getState => d
    | some .haltOnly => d.debugHaltRequest.2
    | some .resetAndHalt => d.debugHaltRequest.2
    | some .resetOnly => d.debugHaltRequest.2
    | some .resume => (d.debugResume false).2
    | some .resumeStep => (d.debugResume true).2
    | none => d
  return (SubCmdHead.size, outBuf, d)

/-- The `reserved` byte of the reply keeps what the buffer held. -/
def flashCommand (inBuf : List UInt8) (inSize : ℕ) (outBuf : Frame) (_outSize : ℕ)
    (d : Device) : HandlerResult := do
  if !(← dbgHeadValid FlashCmdHead.size inBuf inSize .flash) then return (0, outBuf, d)
  let cmdHead ← readHead FlashCmdHead.decode inBuf
  let (status, d) := match FlashCommand.ofByte cmdHead.flashCommand with
    | some .detach => ((1 : UInt8), d.debugStartFirmware.2)
    | some .erase => (1, (d.debugStartEraseLoop cmdHead.address cmdHead.blockSize).2)
    | some .lock => (0, d)
    | some .unlock => (1, d.debugStartLocalLoop.2)
    | none => (0, d)
  let outBuf ← outBuf.store 0 [DebugCommand.flash.toByte, cmdHead.flashCommand, status]
  return (4, outBuf, d)

def attachCommand (inBuf : List UInt8) (inSize : ℕ) (outBuf : Frame) (_outSize : ℕ)
    (d : Device) : HandlerResult := do
  if !(← dbgHeadValid SubCmdHead.size inBuf inSize .attach) then return (0, outBuf, d)
  let cmdHead ← readHead SubCmdHead.decode inBuf
  let outBuf ← outBuf.store 0 [cmdHead.cmd, cmdHead.sub, 1]
  let d := if cmdHead.sub = 0 then d.debugHaltRequest.2 else d
  let d := if cmdHead.sub = 1 then (d.debugStartFirmware.2.debugResume false).2 else d
  return (SubCmdHead.size, outBuf, d)

/-- Bits of the comparator that hold the word address. -/
def compAddressMask : UInt32 := 0x3FFFFFFC

/-- Arm the half-word `address`: in the comparator that already holds its word, else in the
first one that is not enabled. -/
def setComparator (comp : Vector UInt32 8) (address : UInt32) : Vector UInt32 8 :=
  let word := address &&& compAddressMask
  let addrlow : UInt32 := if address &&& 0x02 ≠ 0 then 0x02 else 0x01
  match (List.finRange 8).find? fun i => comp[i] &&& compAddressMask = word with
  | some i => comp.set i (comp[i] ||| ((0x01 : UInt32) ||| (addrlow <<< 30)))
  | none =>
    match (List.finRange 8).find? fun i => comp[i] &&& 0x01 = 0 with
    | some i => comp.set i (word ||| ((0x01 : UInt32) ||| (addrlow <<< 30)))
    | none => comp

/-- Disarm the half-word `address` in every comparator that holds its word; a comparator with
no half-word left is zeroed. -/
def clearComparator (comp : Vector UInt32 8) (address : UInt32) : Vector UInt32 8 :=
  let word := address &&& compAddressMask
  let addrlow : UInt32 := if address &&& 0x02 ≠ 0 then 0x02 else 0x01
  comp.map fun bp =>
    if bp &&& compAddressMask = word then
      let bp := bp &&& ~~~(addrlow <<< 30)
      if bp &&& 0xC0000000 = 0 then 0 else bp
    else bp

def breakpointCommand (inBuf : List UInt8) (inSize : ℕ) (outBuf : Frame) (_outSize : ℕ)
    (d : Device) : HandlerResult := do
  if !(← dbgHeadValid BreakpointHead.size inBuf inSize .breakpoint) then return (0, outBuf, d)
  let cmdHead ← readHead BreakpointHead.decode inBuf
  let ansHead : BreakpointHead := ⟨DebugCommand.breakpoint.toByte, cmdHead.set, cmdHead.count⟩
  let outBuf ← outBuf.store 0 ansHead.encode
  let set := cmdHead.set ≠ 0
  let fpCtrl := if set then d.fpCtrl ||| 0x03 else d.fpCtrl
  let fpComp ← (List.range cmdHead.count).foldlM (fun comp index => do
    let word ← readBytes inBuf (BreakpointHead.size + Breakpoint.bytes * index) 4
    let address := UInt32.ofNat (ofLE word)
    return if set then setComparator comp address else clearComparator comp address) d.fpComp
  return (BreakpointHead.size, outBuf, { d with fpCtrl := fpCtrl, fpComp := fpComp })

/-- The switch of `usbDataOutCallback`. -/
def dispatchCommand (inBuf : List UInt8) (rcvSize : ℕ) (outBuf : Frame) (d : Device) :
    HandlerResult :=
  match inBuf with
  | [] => .error .outOfBounds
  | c :: _ =>
    match DebugCommand.ofByte c with
    | some .memoryRead => memoryReadCommand inBuf rcvSize outBuf 64 d
    | some .memoryWrite => memoryWriteCommand inBuf rcvSize outBuf 64 d
    | some .regsRead => regsReadCommand inBuf rcvSize outBuf 64 d
    | some .regsWrite => regsWriteCommand inBuf rcvSize outBuf 64 d
    | some .resetHalt => resetHaltCommand inBuf rcvSize outBuf 64 d
    | some .breakpoint => breakpointCommand inBuf rcvSize outBuf 64 d
    | some .flash => flashCommand inBuf rcvSize outBuf 64 d
    | some .attach => attachCommand inBuf rcvSize outBuf 64 d
    | none => .ok (0, outBuf, d)

/-- `usbd_ep_write_packet`: refused while the last reply has not been collected. -/
def Device.epWritePacket (d : Device) (reply : List UInt8) : Device :=
  match d.inEndpoint with
  | some _ => d
  | none => { d with inEndpoint := some reply }

/-- The USB interrupt handling one packet of the host. A handler that returns zero sends the
callback into its endless loop. -/
def usbDataOutCallback (packet : List UInt8) (d : Device) : Except Fault Device := do
  let rcvSize := (packet.take 64).length
  if rcvSize = 0 then return d
  let frame := d.usbCmdFrame.receive packet
  let (retSize, outBuf, d) ← dispatchCommand frame.val rcvSize d.usbAnsFrame
    { d with usbCmdFrame := frame, usbInitialized := true }
  if retSize = 0 then throw .neverReturns
  return { d with usbAnsFrame := outBuf }.epWritePacket (outBuf.val.take retSize)

end BluePill
