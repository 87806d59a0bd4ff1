import BluePill.Lib.Endian

/-! Wire format of `DbgCommands.h`: command codes and the packed heads of commands and
replies. The host includes its own copy of the same structures. -/
namespace BluePill
open Lib

/-- What the C++ leaves undefined or never finishes: an access outside an array, a division by
zero, and a loop that does not end. -/
inductive Fault where
  | outOfBounds
  | divisionByZero
  | neverReturns
  deriving DecidableEq, Repr

inductive DebugCommand where
  | memoryRead | memoryWrite | regsRead | regsWrite | resetHalt | breakpoint | flash | attach
  deriving DecidableEq, Repr

def DebugCommand.toByte : DebugCommand → UInt8
  | .memoryRead => 0
  | .memoryWrite => 1
  | .regsRead => 2
  | .regsWrite => 3
  | .resetHalt => 4
  | .breakpoint => 5
  | .flash => 6
  | .attach => 7

/-- The `static_cast` of a received byte; a byte that is no enumerator takes the `default`
branch of every switch. -/
def DebugCommand.ofByte (b : UInt8) : Option DebugCommand :=
  if b = 0 then some .memoryRead else if b = 1 then some .memoryWrite
  else if b = 2 then some .regsRead else if b = 3 then some .regsWrite
  else if b = 4 then some .resetHalt else if b = 5 then some .breakpoint
  else if b = 6 then some .flash else if b = 7 then some .attach else none

@[simp] theorem DebugCommand.ofByte_toByte (c : DebugCommand) : ofByte c.toByte = some c := by
  cases c <;> decide

inductive ResetHaltCommand where
  | resetOnly | haltOnly | resetAndHalt | resume | resumeStep | getState
  deriving DecidableEq, Repr

def ResetHaltCommand.toByte : ResetHaltCommand → UInt8
  | .resetOnly => 0
  | .haltOnly => 1
  | .resetAndHalt => 2
  | .resume => 3
  | .resumeStep => 4
  | .getState => 5

def ResetHaltCommand.ofByte (b : UInt8) : Option ResetHaltCommand :=
  if b = 0 then some .resetOnly else if b = 1 then some .haltOnly
  else if b = 2 then some .resetAndHalt else if b = 3 then some .resume
  else if b = 4 then some .resumeStep else if b = 5 then some .getState else none

@[simp] theorem ResetHaltCommand.ofByte_toByte (c : ResetHaltCommand) :
    ofByte c.toByte = some c := by
  cases c <;> decide

inductive ResetHaltState where
  | running | error | request | stepping | breakpoint | watchpoint | fault | undefined
  deriving DecidableEq, Repr

def ResetHaltState.toByte : ResetHaltState → UInt8
  | .running => 0
  | .error => 1
  | .request => 2
  | .stepping => 3
  | .breakpoint => 4
  | .watchpoint => 5
  | .fault => 6
  | .undefined => 7

inductive FlashCommand where
  | unlock | lock | erase | detach
  deriving DecidableEq, Repr

def FlashCommand.toByte : FlashCommand → UInt8
  | .unlock => 0
  | .lock => 1
  | .erase => 2
  | .detach => 3

def FlashCommand.ofByte (b : UInt8) : Option FlashCommand :=
  if b = 0 then some .unlock else if b = 1 then some .lock
  else if b = 2 then some .erase else if b = 3 then some .detach else none

@[simp] theorem FlashCommand.ofByte_toByte (c : FlashCommand) : ofByte c.toByte = some c := by
  cases c <;> decide

/-- `MemReadWriteCmdHead` and `MemReadWriteAnsHead`, which have one layout. -/
structure MemReadWriteHead where
  cmd : UInt8
  align : UInt8
  byteCount : ℕ
  address : ℕ
  deriving DecidableEq, Repr

namespace MemReadWriteHead

/-- `sizeof(MemReadWriteCmdHead)`. -/
abbrev size : ℕ := 8

def encode (h : MemReadWriteHead) : List UInt8 :=
  h.cmd :: h.align :: (toLE 2 h.byteCount ++ toLE 4 h.address)

def decode : List UInt8 → Option MemReadWriteHead
  | c :: al :: n₀ :: n₁ :: a₀ :: a₁ :: a₂ :: a₃ :: _ =>
      some ⟨c, al, ofLE [n₀, n₁], ofLE [a₀, a₁, a₂, a₃]⟩
  | _ => none

@[simp] theorem encode_length (h : MemReadWriteHead) : h.encode.length = size := by
  simp [encode]

theorem decode_encode (h : MemReadWriteHead) (rest : List UInt8) (hn : h.byteCount < 65536)
    (ha : h.address < 4294967296) : decode (h.encode ++ rest) = some h := by
  have hn' := ofLE_toLE_of_lt (w := 2) (by simpa using hn)
  have ha' := ofLE_toLE_of_lt (w := 4) (by simpa using ha)
  simp only [toLE] at hn' ha'
  simp only [encode, toLE, List.cons_append, List.nil_append, decode, hn', ha']

/-- The head is decided by the bytes it takes. -/
theorem decode_append {bytes : List UInt8} (rest : List UInt8) (h : size ≤ bytes.length) :
    decode (bytes ++ rest) = decode bytes := by
  match bytes, h with
  | _ :: _ :: _ :: _ :: _ :: _ :: _ :: _ :: _, _ => rfl

end MemReadWriteHead

/-- `RegReadWriteCmdHead` and `RegReadWriteAnsHead`. -/
structure RegReadWriteHead where
  cmd : UInt8
  regCount : UInt8
  regIndex : ℕ
  deriving DecidableEq, Repr

namespace RegReadWriteHead

abbrev size : ℕ := 4

def encode (h : RegReadWriteHead) : List UInt8 := h.cmd :: h.regCount :: toLE 2 h.regIndex

def decode : List UInt8 → Option RegReadWriteHead
  | c :: n :: i₀ :: i₁ :: _ => some ⟨c, n, ofLE [i₀, i₁]⟩
  | _ => none

end RegReadWriteHead

/-- `ResetHaltResumeCmdHead`, `AttachDetachCmdHead`: a command, a sub-command, padding. -/
structure SubCmdHead where
  cmd : UInt8
  sub : UInt8
  deriving DecidableEq, Repr

namespace SubCmdHead

abbrev size : ℕ := 4

def decode : List UInt8 → Option SubCmdHead
  | c :: s :: _ :: _ :: _ => some ⟨c, s⟩
  | _ => none

end SubCmdHead

structure FlashCmdHead where
  cmd : UInt8
  flashCommand : UInt8
  address : ℕ
  blockSize : ℕ
  deriving DecidableEq, Repr

namespace FlashCmdHead

abbrev size : ℕ := 12

/-- The two reserved bytes are sent as zero. -/
def encode (h : FlashCmdHead) : List UInt8 :=
  h.cmd :: h.flashCommand :: 0 :: 0 :: (toLE 4 h.address ++ toLE 4 h.blockSize)

def decode : List UInt8 → Option FlashCmdHead
  | c :: f :: _ :: _ :: a₀ :: a₁ :: a₂ :: a₃ :: s₀ :: s₁ :: s₂ :: s₃ :: _ =>
      some ⟨c, f, ofLE [a₀, a₁, a₂, a₃], ofLE [s₀, s₁, s₂, s₃]⟩
  | _ => none

@[simp] theorem encode_length (h : FlashCmdHead) : h.encode.length = size := by
  simp [encode]

theorem decode_encode (h : FlashCmdHead) (rest : List UInt8) (ha : h.address < 4294967296)
    (hs : h.blockSize < 4294967296) : decode (h.encode ++ rest) = some h := by
  have ha' := ofLE_toLE_of_lt (w := 4) (by simpa using ha)
  have hs' := ofLE_toLE_of_lt (w := 4) (by simpa using hs)
  simp only [toLE] at ha' hs'
  simp only [encode, toLE, List.cons_append, List.nil_append, decode, ha', hs']

theorem decode_append {bytes : List UInt8} (rest : List UInt8) (h : size ≤ bytes.length) :
    decode (bytes ++ rest) = decode bytes := by
  match bytes, h with
  | _ :: _ :: _ :: _ :: _ :: _ :: _ :: _ :: _ :: _ :: _ :: _ :: _, _ => rfl

end FlashCmdHead

structure FlashAnsHead where
  cmd : UInt8
  flashCommand : UInt8
  status : UInt8
  deriving DecidableEq, Repr

namespace FlashAnsHead

abbrev size : ℕ := 4

def decode : List UInt8 → Option FlashAnsHead
  | c :: f :: s :: _ :: _ => some ⟨c, f, s⟩
  | _ => none

end FlashAnsHead

structure BreakpointHead where
  cmd : UInt8
  set : UInt8
  count : ℕ
  deriving DecidableEq, Repr

namespace BreakpointHead

abbrev size : ℕ := 4

def encode (h : BreakpointHead) : List UInt8 := h.cmd :: h.set :: toLE 2 h.count

def decode : List UInt8 → Option BreakpointHead
  | c :: s :: n₀ :: n₁ :: _ => some ⟨c, s, ofLE [n₀, n₁]⟩
  | _ => none

end BreakpointHead

/-- `sizeof(Breakpoint)`; the firmware looks at the address, the first four bytes, only. -/
abbrev Breakpoint.bytes : ℕ := 8

end BluePill
