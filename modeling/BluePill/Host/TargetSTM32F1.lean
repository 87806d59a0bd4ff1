import BluePill.Lib.Transfer
import BluePill.Firmware.Commands

/-! `TargetSTM32F1.cpp` of the GDB server: memory, register, run control and flash commands over
64-byte packets. The host is a 32-bit program; allocations succeed. -/
namespace BluePill
open Lib

/-- `TargetInterface`: the packet calls, over the state `σ` of what lies behind them.
`writePacket` returns the size sent; `readPacket` gets a size and returns the bytes received,
none when the read failed. -/
structure TargetInterface (σ : Type) where
  writePacket : List UInt8 → σ → ℕ × σ
  readPacket : ℕ → σ → List UInt8 × σ

/-- `_out`, `_in` and the interface. `_in` keeps the bytes that a reply does not overwrite. -/
structure Host (σ : Type) where
  outBuf : Frame
  inBuf : Frame
  link : σ

namespace MakeHead

/-- `~(accessSizeBytes - 1)` in 32 bits. -/
def accessBitMask (accessSizeBytes : ℕ) : ℕ :=
  4294967295 - (accessSizeBytes + 4294967295) % 4294967296

/-- The body that `memReadCmd` and `memWriteCmd` share: both buffers have 64 bytes and both
heads 8. It returns the size of the head, zero when the arguments are refused. -/
def memCmd (cmd : DebugCommand) (buf : Frame) (address accessSizeBytes elementCount : ℕ) :
    Except Fault (ℕ × Frame) :=
  if elementCount = 0 ∨ accessSizeBytes = 0 then .ok (0, buf)
  else if (accessSizeBytes - 1) &&& accessSizeBytes ≠ 0 then .ok (0, buf)
  else do
    let requiredBytes := elementCount * accessSizeBytes % 4294967296
    let maxBytes := 64 - MemReadWriteHead.size
    let bytesCount := if maxBytes < requiredBytes then maxBytes else requiredBytes
    let head : MemReadWriteHead := {
      cmd := cmd.toByte
      align := UInt8.ofNat accessSizeBytes
      byteCount := bytesCount &&& accessBitMask accessSizeBytes
      address := address }
    let buf ← buf.store 0 head.encode
    return (MemReadWriteHead.size, buf)

def memReadCmd := memCmd .memoryRead

def memWriteCmd := memCmd .memoryWrite

/-- The body that `regsRead` and `regsWrite` share, for the register number as it is stored. -/
def regsCmd (cmd : DebugCommand) (buf : Frame) (storedIndex regCount : ℕ) :
    Except Fault (ℕ × Frame) :=
  if regCount = 0 then .ok (0, buf)
  else do
    let requiredBytes := regCount * 4 % 4294967296
    let maxBytes := 64 - RegReadWriteHead.size
    let bytesCount := (if maxBytes < requiredBytes then maxBytes else requiredBytes) &&&
      accessBitMask 4
    let head : RegReadWriteHead := {
      cmd := cmd.toByte
      regCount := UInt8.ofNat (bytesCount / 4)
      regIndex := storedIndex }
    let buf ← buf.store 0 head.encode
    return (RegReadWriteHead.size, buf)

def regsRead (buf : Frame) (regIndex regCount : ℕ) : Except Fault (ℕ × Frame) :=
  regsCmd .regsRead buf (regIndex % 65536) regCount

/-- The register number is cut to eight bits, unlike in `regsRead`. -/
def regsWrite (buf : Frame) (regIndex : ℕ) (regsToWrite : List UInt32) :
    Except Fault (ℕ × Frame) :=
  regsCmd .regsWrite buf (regIndex % 256) regsToWrite.length

/-- Two padding bytes keep what the buffer had. -/
def resetHaltResume (buf : Frame) (command : ResetHaltCommand) : Except Fault (ℕ × Frame) := do
  let buf ← buf.store 0 [DebugCommand.resetHalt.toByte, command.toByte]
  return (SubCmdHead.size, buf)

def flashCmd (buf : Frame) (command : FlashCommand) (address blockSizeBytes : ℕ) :
    Except Fault (ℕ × Frame) := do
  let head : FlashCmdHead := ⟨DebugCommand.flash.toByte, command.toByte, address, blockSizeBytes⟩
  let buf ← buf.store 0 head.encode
  return (FlashCmdHead.size, buf)

end MakeHead

namespace TargetSTM32F1

variable {σ : Type} (interface : TargetInterface σ)

/-- The size received, zero when the packet was not sent whole. -/
def sendAndReceive (sendSize : ℕ) (h : Host σ) : Except Fault (ℕ × Host σ) := do
  let packet ← readBytes h.outBuf.val 0 sendSize
  let (txSize, link) := interface.writePacket packet h.link
  if txSize ≠ sendSize then return (0, { h with link := link })
  let (reply, link) := interface.readPacket 64 link
  return ((reply.take 64).length, { h with inBuf := h.inBuf.receive reply, link := link })

/-- The reply echoes command, address and element size. -/
def headsAgree (cmdHead ansHead : MemReadWriteHead) : Prop :=
  cmdHead.cmd = ansHead.cmd ∧ cmdHead.address = ansHead.address ∧ cmdHead.align = ansHead.align

instance (cmdHead ansHead : MemReadWriteHead) : Decidable (headsAgree cmdHead ansHead) := by
  unfold headsAgree
  infer_instance

/-- One round of the loop of `memRead`: the announced byte count, zero for each `break`, and the
vector up to the end of what has been copied into it. -/
def memReadRound (address accessSize total offset : ℕ) (s : List UInt8 × Host σ) :
    Except Fault (ℕ × List UInt8 × Host σ) := do
  let (data, h) := s
  let remain := total - offset
  let (cmdHeadSize, out) ←
    MakeHead.memReadCmd h.outBuf ((address + offset) % 4294967296) accessSize (remain / accessSize)
  let h := { h with outBuf := out }
  if cmdHeadSize = 0 then return (0, data, h)
  let (rxSize, h) ← sendAndReceive interface cmdHeadSize h
  if rxSize < MemReadWriteHead.size then return (0, data, h)
  let cmdHead ← readHead MemReadWriteHead.decode h.outBuf.val
  let ansHead ← readHead MemReadWriteHead.decode h.inBuf.val
  if ¬ headsAgree cmdHead ansHead then return (0, data, h)
  if ansHead.byteCount = 0 then return (0, data, h)
  let readCount := if ansHead.byteCount < remain then ansHead.byteCount else remain
  let bytes ← readBytes h.inBuf.val MemReadWriteHead.size readCount
  return (ansHead.byteCount, data ++ bytes, h)

def memRead (address accessSize elementCount : ℕ) (h : Host σ) :
    Except Fault (List UInt8 × Host σ) :=
  if accessSize = 0 ∨ elementCount = 0 then .ok ([], h)
  else do
    let total := elementCount * accessSize % 4294967296
    let (_, s) ← transfer (memReadRound interface address accessSize total) total 0 ([], h)
    return s

/-- One round of the loop of `memWrite`. The size received is not looked at. -/
def memWriteRound (address accessSize : ℕ) (dataToWrite : List UInt8) (offset : ℕ) (h : Host σ) :
    Except Fault (ℕ × Host σ) := do
  let remain := dataToWrite.length - offset
  if accessSize = 0 then throw .divisionByZero
  let (cmdHeadSize, out) ← MakeHead.memWriteCmd h.outBuf ((address + offset) % 4294967296)
    accessSize (remain / accessSize)
  let h := { h with outBuf := out }
  if cmdHeadSize = 0 then return (0, h)
  let cmdHead ← readHead MemReadWriteHead.decode h.outBuf.val
  let bytes ← readBytes dataToWrite offset cmdHead.byteCount
  let out ← h.outBuf.store cmdHeadSize bytes
  let (_, h) ← sendAndReceive interface (cmdHeadSize + cmdHead.byteCount) { h with outBuf := out }
  let ansHead ← readHead MemReadWriteHead.decode h.inBuf.val
  if ¬ headsAgree cmdHead ansHead then return (0, h)
  if ansHead.byteCount = 0 then return (0, h)
  if ansHead.byteCount > cmdHead.byteCount then return (0, h)
  return (ansHead.byteCount, h)

def memWrite (address accessSize : ℕ) (dataToWrite : List UInt8) (h : Host σ) :
    Except Fault (ℕ × Host σ) :=
  if dataToWrite.length = 0 then .ok (0, h)
  else transfer (memWriteRound interface address accessSize dataToWrite) dataToWrite.length 0 h

/-- The 32-bit words of a byte buffer. -/
def leWords (bytes : List UInt8) (n : ℕ) : List UInt32 :=
  (List.range n).map fun i => UInt32.ofNat (ofLE ((bytes.drop (4 * i)).take 4))

/-- One round of the loop of `regsRead`: none for each `break`, else the bytes announced. The
words of every reply go to the front of the vector. A reply with no registers does not leave the
loop. -/
def regsReadRound (regIndex total offset : ℕ) (s : List UInt32 × Host σ) :
    Except Fault (Option ℕ × List UInt32 × Host σ) := do
  let (regs, h) := s
  let remain := total - offset
  let (cmdHeadSize, out) ← MakeHead.regsRead h.outBuf (offset / 4 + regIndex) (remain / 4)
  let (rxSize, h) ← sendAndReceive interface cmdHeadSize { h with outBuf := out }
  if rxSize < RegReadWriteHead.size then return (none, regs, h)
  let cmdHead ← readHead RegReadWriteHead.decode h.outBuf.val
  let ansHead ← readHead RegReadWriteHead.decode h.inBuf.val
  if cmdHead.cmd ≠ ansHead.cmd then return (none, regs, h)
  if cmdHead.regIndex ≠ ansHead.regIndex then return (none, regs, h)
  if cmdHead.regCount < ansHead.regCount then return (none, regs, h)
  let count := ansHead.regCount.toNat
  let bytes ← readBytes h.inBuf.val RegReadWriteHead.size (count * 4)
  return (some (count * 4), leWords bytes count ++ regs.drop count, h)

/-- `fuel` bounds the rounds of the loop. -/
def regsRead (fuel regIndex regCount : ℕ) (h : Host σ) :
    Except Fault (List UInt32 × Host σ) :=
  if regCount = 0 then .ok ([], h)
  else do
    let total := 4 * regCount
    let (offset, regs, h) ← rounds (regsReadRound interface regIndex total) total .neverReturns
      fuel 0 (List.replicate regCount 0, h)
    return (if offset < total then regs.take (offset / 4) else regs, h)

/-- One round of the loop of `regsWrite`. The count in the packet is that of the whole vector,
also behind the first packet. -/
def regsWriteRound (regIndex : ℕ) (regsToWrite : List UInt32) (offset : ℕ) (h : Host σ) :
    Except Fault (ℕ × Host σ) := do
  let (cmdHeadSize, out) ← MakeHead.regsWrite h.outBuf (offset / 4 + regIndex) regsToWrite
  let cmdHead ← readHead RegReadWriteHead.decode out.val
  let count := cmdHead.regCount.toNat
  let bytes ← readBytes (regsToWrite.flatMap fun v => toLE 4 v.toNat) offset (count * 4)
  let out ← out.store cmdHeadSize bytes
  let (rxSize, h) ← sendAndReceive interface (cmdHeadSize + count * 4) { h with outBuf := out }
  if rxSize < RegReadWriteHead.size then return (0, h)
  let ansHead ← readHead RegReadWriteHead.decode h.inBuf.val
  if cmdHead.cmd ≠ ansHead.cmd then return (0, h)
  if cmdHead.regIndex ≠ ansHead.regIndex then return (0, h)
  if ansHead.regCount = 0 then return (0, h)
  if cmdHead.regCount < ansHead.regCount then return (0, h)
  return (ansHead.regCount.toNat * 4, h)

def regsWrite (regIndex : ℕ) (regsToWrite : List UInt32) (h : Host σ) :
    Except Fault (ℕ × Host σ) :=
  if regsToWrite.length = 0 then .ok (0, h)
  else do
    let (offset, h) ← transfer (regsWriteRound interface regIndex regsToWrite)
      (4 * regsToWrite.length) 0 h
    return (offset / 4, h)

/-- `resetHaltResume`: the state byte of an accepted reply, none for `Undefined`. -/
def resetHaltResume (command : ResetHaltCommand) (h : Host σ) :
    Except Fault (Option UInt8 × Host σ) := do
  let (cmdHeadSize, out) ← MakeHead.resetHaltResume h.outBuf command
  let (rxSize, h) ← sendAndReceive interface cmdHeadSize { h with outBuf := out }
  if rxSize < SubCmdHead.size then return (none, h)
  let cmdHead ← readHead SubCmdHead.decode h.outBuf.val
  let ansHead ← readHead SubCmdHead.decode h.inBuf.val
  if cmdHead.cmd ≠ ansHead.cmd then return (none, h)
  if cmdHead.sub ≠ ansHead.sub then return (none, h)
  let haltState ← readBytes h.inBuf.val 2 1
  return (haltState.head?, h)

def flashCmd (command : FlashCommand) (address blockSizeBytes : ℕ) (h : Host σ) :
    Except Fault (Bool × Host σ) := do
  let (cmdHeadSize, out) ← MakeHead.flashCmd h.outBuf command address blockSizeBytes
  let (rxSize, h) ← sendAndReceive interface cmdHeadSize { h with outBuf := out }
  if rxSize < FlashAnsHead.size then return (false, h)
  let cmdHead ← readHead FlashCmdHead.decode h.outBuf.val
  let ansHead ← readHead FlashAnsHead.decode h.inBuf.val
  if cmdHead.cmd ≠ ansHead.cmd then return (false, h)
  if cmdHead.flashCommand ≠ ansHead.flashCommand then return (false, h)
  return (ansHead.status != 0, h)

end TargetSTM32F1

end BluePill
