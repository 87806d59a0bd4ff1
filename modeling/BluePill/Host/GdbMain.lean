import BluePill.Host.TargetFlash

/-! `gdb_main.c`: what GDB is answered to the packets that read and write memory and registers,
with the wrappers of `target.c`. A target is selected, and the fields of a packet have been
parsed. -/
namespace BluePill
open Lib

/-- The packets sent to GDB. Data goes out in hexadecimal; a byte of a host buffer that nothing
was stored into is `none`. -/
inductive GdbReply
  | ok
  /-- `OK` with its terminator. -/
  | okNul
  | e01
  | e02
  | eff
  /-- The first two characters of `EFF`. -/
  | ef
  | data (bytes : List (Option UInt8))
  deriving DecidableEq, Repr

/-- A buffer of the host with `stored` at its front. -/
def hostBuffer (size : ℕ) (stored : List UInt8) : Except Fault (List (Option UInt8)) :=
  if stored.length ≤ size then
    .ok (stored.map some ++ List.replicate (size - stored.length) none)
  else .error .outOfBounds

theorem hostBuffer_eq {size : ℕ} {stored : List UInt8} {buf : List (Option UInt8)}
    (h : hostBuffer size stored = .ok buf) :
    buf = stored.map some ++ List.replicate (size - stored.length) none := by
  unfold hostBuffer at h
  split_ifs at h
  exact (Except.ok.inj h).symm

/-- Behind what was stored a buffer holds what it held before. -/
theorem hostBuffer_rest {size : ℕ} {stored : List UInt8} {buf : List (Option UInt8)} {i : ℕ}
    (h : hostBuffer size stored = .ok buf) (hlo : stored.length ≤ i) (hhi : i < size) :
    buf[i]? = some none := by
  rw [hostBuffer_eq h, List.getElem?_append_right (by rwa [List.length_map]), List.length_map,
    List.getElem?_replicate, if_pos (by omega)]

/-- `sizeof(pbuf)`. -/
abbrev pbufSize : ℕ := 1025

/-- `t->regs_size`. -/
abbrev targetRegsSize : ℕ := 64

def unhexDigit (hex : UInt8) : UInt8 :=
  let tmp := hex - 0x30
  let tmp := if tmp > 9 then tmp - 7 else tmp
  if tmp > 16 then tmp - 32 else tmp

/-- `size` bytes from their digits. -/
def unhexify (hex : List UInt8) (size : ℕ) : Except Fault (List UInt8) := do
  let digits ← readBytes hex 0 (2 * size)
  return (List.range size).map fun i =>
    unhexDigit (digits.getD (2 * i) 0) <<< 4 ||| unhexDigit (digits.getD (2 * i + 1) 0)

variable {σ : Type} (interface : TargetInterface σ)

/-- `target_mem_read`: the result of `check_error` and the bytes stored. -/
def targetMemRead (src len : ℕ) (h : Host σ) : Except Fault (Bool × List UInt8 × Host σ) := do
  let (stored, h) ← stm32MemRead interface src len h
  return (stm32CheckError, stored, h)

def targetMemWrite (dest : ℕ) (src : List UInt8) (len : ℕ) (atData : ℕ → UInt8) (h : Host σ) :
    Except Fault (Bool × Host σ) := do
  let h ← stm32MemWrite interface dest src len atData h
  return (stm32CheckError, h)

/-- `m addr,len`. -/
def gdbReadMemory (addr len : ℕ) (h : Host σ) : Except Fault (GdbReply × Host σ) :=
  if len > pbufSize / 2 then .ok (.e02, h)
  else do
    let (err, stored, h) ← targetMemRead interface addr len h
    let mem ← hostBuffer len stored
    return (if err then .e01 else .data mem, h)

/-- `M addr,len:XX`, with the characters behind the colon. -/
def gdbWriteMemory (addr len : ℕ) (hex : List UInt8) (atData : ℕ → UInt8) (h : Host σ) :
    Except Fault (GdbReply × Host σ) :=
  if len > hex.length / 2 then .ok (.e02, h)
  else do
    let mem ← unhexify hex len
    let (err, h) ← targetMemWrite interface addr mem len atData h
    return (if err then .e01 else .ok, h)

/-- `X addr,len:XX`, with the bytes behind the colon. -/
def gdbWriteBinary (addr len : ℕ) (bin : List UInt8) (atData : ℕ → UInt8) (h : Host σ) :
    Except Fault (GdbReply × Host σ) :=
  if len > bin.length then .ok (.e02, h)
  else do
    let (err, h) ← targetMemWrite interface addr bin len atData h
    return (if err then .e01 else .ok, h)

/-- `g`. -/
def gdbReadRegisters (fuel : ℕ) (h : Host σ) : Except Fault (GdbReply × Host σ) := do
  let (stored, h) ← stm32RegsRead interface fuel h
  let armRegs ← hostBuffer targetRegsSize stored
  return (.data armRegs, h)

/-- `p n`. -/
def gdbReadRegister (fuel reg : ℕ) (h : Host σ) : Except Fault (GdbReply × Host σ) := do
  let (s, stored, h) ← stm32RegRead interface fuel reg 8 h
  let val ← hostBuffer 8 stored
  return (if s > 0 then .data (val.take s) else .eff, h)

/-- Nothing is mapped in the lowest 64 KiB of a Windows process. -/
def hostMapped (address : ℕ) : Prop := 65536 ≤ address

instance (address : ℕ) : Decidable (hostMapped address) := inferInstanceAs (Decidable (_ ≤ _))

/-- `G XX`: the address of the buffer is kept in one byte. `regs_write` is the `nop_function` of
`target_new`. -/
def gdbWriteRegisters (hex : List UInt8) (alloca : UInt32) (h : Host σ) :
    Except Fault (GdbReply × Host σ) := do
  let armRegs := alloca.toUInt8.toNat
  let _ ← unhexify hex targetRegsSize
  if ¬ hostMapped armRegs then throw .outOfBounds
  return (.ok, h)

/-- `P n=value`, with the characters behind the sign; `val` is the address of the buffer that
they are decoded into. -/
def gdbWriteRegister (reg : ℕ) (hex : List UInt8) (val : UInt32) (h : Host σ) :
    Except Fault (GdbReply × Host σ) := do
  let _ ← unhexify hex 4
  let (s, h) ← stm32RegWrite interface reg val h
  return (if s > 0 then .ok else .eff, h)

/-- `vFlashWrite:addr:XX`. -/
def gdbFlashWrite (addr : ℕ) (bin : List UInt8) (t : Target σ) :
    Except Fault (GdbReply × Target σ) := do
  let (ret, t) ← targetFlashWrite interface t addr bin
  return (if ret = 0 then .ok else .eff, t)

/-- What `gdb_putpacketz` sends of `EFF` or `OK`: `text` chooses the characters, `length` the text
whose `strlen` says how many. -/
def flashDoneReply (text length : ℕ) : GdbReply :=
  if text ≠ 0 then if length ≠ 0 then .eff else .ef
  else if length ≠ 0 then .okNul else .ok

/-- `vFlashDone`. The macro `gdb_putpacketz` repeats its argument, so `target_flash_done` runs for
the text and for the length; C leaves open which of the two comes first. -/
def gdbFlashDone (lengthFirst : Bool) (t : Target σ) : Except Fault (GdbReply × Target σ) := do
  let (ret, t) ← targetFlashDone interface t
  let (again, t) ← targetFlashDone interface t
  return (if lengthFirst then flashDoneReply again ret else flashDoneReply ret again, t)

end BluePill
