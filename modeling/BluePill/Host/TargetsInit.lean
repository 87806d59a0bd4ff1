import BluePill.Host.TargetSTM32F1

/-! `TargetsInit.cpp`: the calls that the GDB server makes through its target table. -/
namespace BluePill
open Lib

/-- The largest element size of `{1, 2, 4}` that divides `n`, by its low bits. -/
def accSizeOf (n : ℕ) : ℕ := if n &&& 0x01 ≠ 0 then 1 else if n &&& 0x02 ≠ 0 then 2 else 4

variable {σ : Type} (interface : TargetInterface σ)

/-- `stm32_mem_read`: the bytes copied to `dest`. -/
def stm32MemRead (src len : ℕ) (h : Host σ) : Except Fault (List UInt8 × Host σ) :=
  let addrAccSize := accSizeOf src
  let szAccSize := accSizeOf len
  let accSize := if addrAccSize < szAccSize then addrAccSize else szAccSize
  TargetSTM32F1.memRead interface src accSize (len / accSize) h

/-- `stm32_mem_write`: the vector is filled from its own address `&data` on, where `atData` are the
bytes of the host, and not from `src`. The size written is dropped. -/
def stm32MemWrite (dest : ℕ) (_src : List UInt8) (len : ℕ) (atData : ℕ → UInt8) (h : Host σ) :
    Except Fault (Host σ) := do
  let data := (List.range len).map atData
  let addrAccSize := accSizeOf dest
  let szAccSize := accSizeOf len
  let accSize := if addrAccSize < szAccSize then addrAccSize else szAccSize
  let (_, h) ← TargetSTM32F1.memWrite interface dest accSize data h
  return h

/-- `stm32_check_error`. -/
def stm32CheckError : Bool := false

/-- The register of the device behind a number of GDB: `REG_MSP` and `REG_PSP` are `REG_SP`, and
`REG_CPPSR` is `REG_xPSR`. The number is compared as an `int` and passed on in 16 bits. -/
def deviceRegister (reg : ℕ) : Option ℕ :=
  if reg ≤ 0x10 ∨ 2147483648 ≤ reg then some (reg % 65536)
  else if reg = 0x11 ∨ reg = 0x12 then some 13
  else if reg = 0x19 then some 0x10
  else none

/-- `stm32_regs_read`: the bytes stored from `data` on. `std::copy` from words to bytes keeps the
low byte of each. -/
def stm32RegsRead (fuel : ℕ) (h : Host σ) : Except Fault (List UInt8 × Host σ) := do
  let (readRegs, h) ← TargetSTM32F1.regsRead interface fuel 0 16 h
  return (readRegs.map UInt32.toUInt8, h)

/-- `stm32_reg_read`: the size returned and the bytes stored from `data` on, by the same copy. -/
def stm32RegRead (fuel reg max : ℕ) (h : Host σ) : Except Fault (ℕ × List UInt8 × Host σ) :=
  match deviceRegister reg with
  | some i => do
    let (readRegs, h) ← TargetSTM32F1.regsRead interface fuel i 1 h
    return (4, readRegs.map UInt32.toUInt8, h)
  | none => .ok (4, List.replicate max 0, h)

/-- `stm32_reg_write` for one register: the word is the pointer `data` itself, at `&data`. The
count written is dropped. -/
def stm32RegWrite (reg : ℕ) (data : UInt32) (h : Host σ) : Except Fault (ℕ × Host σ) :=
  match deviceRegister reg with
  | some i => do
    let (_, h) ← TargetSTM32F1.regsWrite interface i [data] h
    return (4, h)
  | none => .ok (4, h)

/-- The result of `flashCmd` is dropped here and in `stm32FlashDone`. -/
def stm32FlashErase (address size : ℕ) (h : Host σ) : Except Fault (Host σ) := do
  let (_, h) ← TargetSTM32F1.flashCmd interface .erase address size h
  return h

/-- `stm32_flash_wrtie`, in half-words; the size written is dropped. -/
def stm32FlashWrite (address : ℕ) (data : List UInt8) (h : Host σ) : Except Fault (Host σ) := do
  let (_, h) ← TargetSTM32F1.memWrite interface address 2 data h
  return h

def stm32FlashDone (h : Host σ) : Except Fault (Host σ) := do
  let (_, h) ← TargetSTM32F1.flashCmd interface .detach 0 0 h
  return h

end BluePill
