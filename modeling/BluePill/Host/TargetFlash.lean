import BluePill.Host.TargetsInit

/-! `target.c` and `stm32f1.c`: the flash regions of a target, and the sector buffer between
GDB's write requests and the device. Allocations succeed; addresses and lengths are 32 bits,
as in the Win32 build. -/
namespace BluePill
open Lib

/-- `struct target_flash`; `erase`, `write` and `done` always point to the functions of
`stm32f1.c`. The sector size is positive. -/
structure TargetFlash where
  start : ℕ
  length : ℕ
  blocksize : ℕ
  bufSize : ℕ
  erased : UInt8
  bufSize_pos : 0 < bufSize
  /-- `buf`, or `NULL`. -/
  buf : Option { bytes : List UInt8 // bytes.length = bufSize }
  bufAddr : ℕ

/-- `(uint32_t)-1` in `buf_addr`: nothing is buffered. -/
abbrev noSector : ℕ := 4294967295

/-- The part of `struct target` that flash programming works on. -/
structure Target (σ : Type) where
  flash : List TargetFlash
  host : Host σ

/-- `stm32f1_add_flash`, with the zeroed rest of the record. -/
def stm32f1AddFlash (addr length erasesize : ℕ) (hpos : 0 < erasesize) : TargetFlash where
  start := addr
  length := length
  blocksize := erasesize
  bufSize := erasesize
  erased := 0xFF
  bufSize_pos := hpos
  buf := none
  bufAddr := 0

/-- The one region that `stm32f1_probe` adds. -/
def stm32f1Flash : TargetFlash := stm32f1AddFlash 0x8000000 0x20000 0x400 (by decide)

variable {σ : Type} (interface : TargetInterface σ)

def stm32f1FlashErase (addr len : ℕ) (h : Host σ) : Except Fault (ℕ × Host σ) := do
  let h ← stm32FlashErase interface addr len h
  return (0, h)

def stm32f1FlashWrite (dest : ℕ) (src : List UInt8) (h : Host σ) : Except Fault (ℕ × Host σ) := do
  let h ← stm32FlashWrite interface dest src h
  return (0, h)

def stm32f1FlashDone (h : Host σ) : Except Fault (ℕ × Host σ) := do
  let h ← stm32FlashDone interface h
  return (0, h)

/-- The region holds the address; its end is computed in 32 bits. -/
def TargetFlash.holds (f : TargetFlash) (addr : ℕ) : Bool :=
  decide (f.start ≤ addr ∧ addr < (f.start + f.length) % 4294967296)

/-- The length of what a request for `[addr, addr + len)` takes from the region, all in 32
bits. -/
def TargetFlash.share (f : TargetFlash) (addr len : ℕ) : ℕ :=
  let tmptarget := min ((addr + len) % 4294967296) ((f.start + f.length) % 4294967296)
  (tmptarget + 4294967296 - addr) % 4294967296

/-- `flash_for_addr`: the first region that holds the address, with its place in the list. -/
def flashForAddr (flash : List TargetFlash) (addr : ℕ) : Option (ℕ × TargetFlash) :=
  match flash with
  | [] => none
  | f :: rest =>
    if f.holds addr then some (0, f)
    else (flashForAddr rest addr).map fun r => (r.1 + 1, r.2)

/-- One round of `target_flash_erase`, with `ret` in the state. It leaves the loop where no
region holds the address. -/
def targetFlashEraseRound (flash : List TargetFlash) (addr len offset : ℕ) (s : ℕ × Host σ) :
    Except Fault (ℕ × ℕ × Host σ) := do
  let (ret, h) := s
  let addr := (addr + offset) % 4294967296
  match flashForAddr flash addr with
  | none => return (0, ret, h)
  | some (_, f) =>
    let tmplen := f.share addr (len - offset)
    let (r, h) ← stm32f1FlashErase interface addr tmplen h
    return (tmplen, ret ||| r, h)

/-- `target_flash_erase`; every round that finds a region advances. -/
def targetFlashErase (t : Target σ) (addr len : ℕ) : Except Fault (ℕ × Target σ) := do
  let (_, ret, h) ← transfer (targetFlashEraseRound interface t.flash addr len) len 0 (0, t.host)
  return (ret, { t with host := h })

/-- `memcpy` into the sector buffer. -/
def copyIntoBuffer {n : ℕ} (buf : { bytes : List UInt8 // bytes.length = n }) (offset : ℕ)
    (src : List UInt8) : Except Fault { bytes : List UInt8 // bytes.length = n } :=
  if h : offset + src.length ≤ n then
    .ok ⟨buf.val.take offset ++ src ++ buf.val.drop (offset + src.length), by
      have := buf.property
      simp only [List.length_append, List.length_take, List.length_drop]
      omega⟩
  else .error .outOfBounds

/-- A new buffer; its content is set before it is read. -/
def TargetFlash.allocate (f : TargetFlash) : TargetFlash :=
  match f.buf with
  | some _ => f
  | none => { f with
    buf := some ⟨List.replicate f.bufSize 0, List.length_replicate⟩
    bufAddr := noSector }

/-- A buffer for the sector at `base`, all erased. -/
def TargetFlash.setup (f : TargetFlash) (base : ℕ) : TargetFlash :=
  { f with
    buf := some ⟨List.replicate f.bufSize f.erased, List.length_replicate⟩
    bufAddr := base }

/-- Write the buffered sector to the target, if there is one. -/
def flushSector (f : TargetFlash) (h : Host σ) : Except Fault (ℕ × Host σ) :=
  match f.buf with
  | none => .ok (0, h)
  | some buf =>
    if f.bufAddr ≠ noSector then stm32f1FlashWrite interface f.bufAddr buf.val h else .ok (0, h)

/-- Make the sector at `base` the buffered one. -/
def selectSector (base ret : ℕ) (f : TargetFlash) (h : Host σ) :
    Except Fault (ℕ × TargetFlash × Host σ) :=
  if base ≠ f.bufAddr then do
    let (r, h) ← flushSector interface f h
    return (ret ||| r, f.setup base, h)
  else .ok (ret, f, h)

/-- One round of `target_flash_write_buffered`, with `ret` in the state: the chunk that goes
into one sector. -/
def targetFlashWriteBufferedRound (dest : ℕ) (src : List UInt8) (position : ℕ)
    (s : ℕ × TargetFlash × Host σ) : Except Fault (ℕ × ℕ × TargetFlash × Host σ) := do
  let (ret, f, h) := s
  let dest := (dest + position) % 4294967296
  let offset := dest % f.bufSize
  let base := dest - offset
  let (ret, f, h) ← selectSector interface base ret f h
  let sectlen := min (f.bufSize - offset) (src.length - position)
  match f.buf with
  | none => throw .outOfBounds
  | some buf =>
    let buf ← copyIntoBuffer buf offset ((src.drop position).take sectlen)
    return (sectlen, ret, { f with buf := some buf }, h)

def targetFlashWriteBuffered (f : TargetFlash) (dest : ℕ) (src : List UInt8) (h : Host σ) :
    Except Fault (ℕ × TargetFlash × Host σ) := do
  let (_, s) ← transfer (targetFlashWriteBufferedRound interface dest src) src.length 0
    (0, f.allocate, h)
  return s

/-- One round of `target_flash_write`, with `ret` in the state; it returns 1 where no region
holds the address. -/
def targetFlashWriteRound (dest : ℕ) (src : List UInt8) (position : ℕ) (s : ℕ × Target σ) :
    Except Fault (ℕ × ℕ × Target σ) := do
  let (ret, t) := s
  let dest := (dest + position) % 4294967296
  match flashForAddr t.flash dest with
  | none => return (0, 1, t)
  | some (index, f) =>
    let tmplen := f.share dest (src.length - position)
    let bytes ← readBytes src position tmplen
    let (r, f, h) ← targetFlashWriteBuffered interface f dest bytes t.host
    return (tmplen, ret ||| r, ⟨t.flash.set index f, h⟩)

def targetFlashWrite (t : Target σ) (dest : ℕ) (src : List UInt8) :
    Except Fault (ℕ × Target σ) := do
  let (_, s) ← transfer (targetFlashWriteRound interface dest src) src.length 0 (0, t)
  return s

def targetFlashDoneBuffered (f : TargetFlash) (h : Host σ) :
    Except Fault (ℕ × TargetFlash × Host σ) :=
  if f.buf.isSome ∧ f.bufAddr ≠ noSector then do
    let (ret, h) ← flushSector interface f h
    return (ret, { f with buf := none, bufAddr := noSector }, h)
  else .ok (0, f, h)

/-- The loop of `target_flash_done` over the regions that are left. -/
def targetFlashDoneLoop (flash : List TargetFlash) (h : Host σ) :
    Except Fault (ℕ × List TargetFlash × Host σ) :=
  match flash with
  | [] => .ok (0, [], h)
  | f :: rest => do
    let (tmp, f, h) ← targetFlashDoneBuffered interface f h
    if tmp ≠ 0 then return (tmp, f :: rest, h)
    let (tmp, h) ← stm32f1FlashDone interface h
    if tmp ≠ 0 then return (tmp, f :: rest, h)
    let (ret, rest, h) ← targetFlashDoneLoop rest h
    return (ret, f :: rest, h)

def targetFlashDone (t : Target σ) : Except Fault (ℕ × Target σ) := do
  let (ret, flash, h) ← targetFlashDoneLoop interface t.flash t.host
  return (ret, ⟨flash, h⟩)

end BluePill
