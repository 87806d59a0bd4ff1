import BluePill.Host.CommandLine
import BluePill.Host.Crc32
import BluePill.Host.GdbBreakpoints
import BluePill.Host.GdbPacket
import BluePill.Host.MemoryMap
import BluePill.Host.RunControl

/-! `gdb_main_loop`: one packet after another, from its characters to the answer. One device is
connected, so that `cur_target` and `last_target` point to its target or nowhere; no file system
calls are open. -/
namespace BluePill
open Lib

/-- What the loop and its target keep from one packet to the next. -/
structure GdbServer (σ : Type) where
  /-- What the calls of `gdb_if_getchar` and `gdb_if_getchar_to` are going to return. -/
  input : List UInt8
  /-- What has been sent. -/
  output : List UInt8
  curTarget : Bool
  lastTarget : Bool
  /-- `t->tc` has been set. -/
  controller : Bool
  singleStep : Bool
  flashMode : Bool
  bwList : List Breakwatch
  cmdline : List UInt8
  target : Target σ

/-- What memory holds where a packet's handler reads what nothing was stored into: behind the packet
in `pbuf`, in local buffers and numbers, and where the server's target calls read by mistake; and an
order that C leaves open. -/
structure Leftovers where
  pbuf : ℕ → UInt8
  stack : ℕ → UInt8
  addr : ℕ
  len : ℕ
  index : ℕ
  atData : ℕ → UInt8
  behind : ℕ → UInt8
  alloca : UInt32
  /-- The bytes left for `_alloca`. -/
  room : ℕ
  fuel : ℕ
  /-- `gdb_putpacketz` evaluates its length before its text. -/
  lengthFirst : Bool

/-- Zeros everywhere. -/
def Leftovers.zero : Leftovers := ⟨0, 0, 0, 0, 0, 0, 0, 0, 0, 0, false⟩

/-- A handler that does not come to its end: it waits for a character, or it goes wrong. -/
inductive Stop
  | waits
  | fault (f : Fault)
  deriving DecidableEq, Repr

/-- `BUF_SIZE`. -/
abbrev bufSize : ℕ := 1024

/-- What is sent for an answer. -/
def GdbReply.text (stack : ℕ → UInt8) : GdbReply → List UInt8
  | .ok => ascii "OK"
  | .okNul => ascii "OK" ++ [0]
  | .e01 => ascii "E01"
  | .e02 => ascii "E02"
  | .eff => ascii "EFF"
  | .ef => ascii "EF"
  | .data bytes => hexify (bytes.mapIdx fun i b => b.getD (stack i))

/-- The macro sends as many bytes of the one text, followed by its terminator, as the other is
long. -/
theorem flashDoneReply_text (stack : ℕ → UInt8) (text length : ℕ) :
    (flashDoneReply text length).text stack =
      ((if text ≠ 0 then ascii "EFF" else ascii "OK") ++ [0]).take
        (if length ≠ 0 then ascii "EFF" else ascii "OK").length := by
  unfold flashDoneReply
  split_ifs <;> rfl

namespace GdbServer

variable {σ : Type} {α : Type}

/-- A call that goes to the device. -/
def call (f : Host σ → Except Fault (α × Host σ)) (s : GdbServer σ) :
    Except Stop (α × GdbServer σ) :=
  match f s.target.host with
  | .ok (a, h) => .ok (a, { s with target := { s.target with host := h } })
  | .error e => .error (.fault e)

/-- A call on the flash of the target. -/
def callFlash (f : Target σ → Except Fault (α × Target σ)) (s : GdbServer σ) :
    Except Stop (α × GdbServer σ) :=
  match f s.target with
  | .ok (a, t) => .ok (a, { s with target := t })
  | .error e => .error (.fault e)

/-- A call that returns nothing. -/
def command (f : Host σ → Except Fault (Unit × Host σ)) (s : GdbServer σ) :
    Except Stop (GdbServer σ) := do
  let (_, s) ← s.call f
  return s

def onlyIf (b : Bool) (k : GdbServer σ → Except Stop (GdbServer σ)) (s : GdbServer σ) :
    Except Stop (GdbServer σ) := if b then k s else .ok s

/-- `gdb_putpacket`. -/
def put (payload : List UInt8) (s : GdbServer σ) : Except Stop (GdbServer σ) :=
  match gdbPutpacket payload s.input with
  | some (sent, rest) => .ok { s with input := rest, output := s.output ++ sent }
  | none => .error .waits

/-- A call whose answer is sent. -/
def answer (left : Leftovers) (f : Host σ → Except Fault (GdbReply × Host σ)) (s : GdbServer σ) :
    Except Stop (GdbServer σ) := do
  let (reply, s) ← s.call f
  s.put (reply.text left.stack)

/-- `ERROR_IF_NO_TARGET`. -/
def ifTarget (k : GdbServer σ → Except Stop (GdbServer σ)) (s : GdbServer σ) :
    Except Stop (GdbServer σ) := if s.curTarget then k s else s.put (ascii "EFF")

end GdbServer

variable {σ : Type} (interface : TargetInterface σ)

/-- `%x,%x`, with at most `width` characters each: the first number, and the second with what
follows it. -/
def scanPair (width : ℕ) (s : List UInt8) : Option ℕ × Option (ℕ × List UInt8) :=
  match scanHex width s with
  | none => (none, none)
  | some (n, s) => (some n, (expectChar 0x2C s).bind (scanHex width))

/-- `%n` behind the character `c`: the place of what follows in `pbuf`. -/
def indexBehind (c : UInt8) (pbuf : List UInt8) (s : Option (List UInt8)) : Option ℕ :=
  (s.bind (expectChar c)).map fun rest => pbuf.length - rest.length

/-- `%d`, as it is stored in 32 bits. -/
def scanDecimal (s : List UInt8) : Option UInt32 :=
  let (negative, s) := scanSign (s.dropWhile isSpace)
  let digits := s.takeWhile fun c => 0x30 ≤ c ∧ c ≤ 0x39
  if digits = [] then none
  else
    let n := digits.foldl (fun n c => 10 * n + (c.toNat - 0x30)) 0
    some (UInt32.ofNat (storedNumber negative n))

/-- `pbuf` with a packet: behind its terminator lies what was there before. -/
def packetBuffer (left : Leftovers) (packet : List UInt8) : List UInt8 :=
  packet ++ 0 :: (List.range (bufSize - packet.length)).map fun i =>
    left.pbuf (packet.length + 1 + i)

def handleM (left : Leftovers) (pbuf : List UInt8) (s : GdbServer σ) :
    Except Stop (GdbServer σ) :=
  let (addr, len) := scanPair pbufSize (pbuf.drop 1)
  s.answer left (gdbReadMemory interface (addr.getD left.addr) ((len.map Prod.fst).getD left.len))

/-- `M` and `X`, which differ in what they make of the characters behind the colon. -/
def handleWrite (left : Leftovers) (pbuf packet : List UInt8) (s : GdbServer σ)
    (write : ℕ → ℕ → List UInt8 → (ℕ → UInt8) → Host σ → Except Fault (GdbReply × Host σ)) :
    Except Stop (GdbServer σ) :=
  let (addr, len) := scanPair pbufSize (pbuf.drop 1)
  let index := (indexBehind 0x3A pbuf (len.map Prod.snd)).getD left.index
  if index > packet.length then .error (.fault .outOfBounds)
  else s.answer left (write (addr.getD left.addr) ((len.map Prod.fst).getD left.len)
    (packet.drop index) left.atData)

def handleRegWrite (left : Leftovers) (pbuf : List UInt8) (s : GdbServer σ) :
    Except Stop (GdbServer σ) :=
  let scanned := scanHex pbufSize (pbuf.drop 1)
  let index := (indexBehind 0x3D pbuf (scanned.map Prod.snd)).getD left.index
  s.answer left (gdbWriteRegister interface ((scanned.map Prod.fst).getD left.addr)
    (pbuf.drop index) left.alloca)

/-- `handle_z_packet`: the type is a `char` less `'0'`. -/
def handleZ (left : Leftovers) (set : Bool) (pbuf : List UInt8) (s : GdbServer σ) :
    Except Stop (GdbServer σ) := do
  let c := pbuf.getD 1 0
  let type := (if c < 0x80 then c.toUInt32 else c.toUInt32 ||| 0xFFFFFF00) - 0x30
  let scanned := (expectChar 0x2C (pbuf.drop 2)).bind (scanHex pbufSize)
  let addr := UInt32.ofNat ((scanned.map Prod.fst).getD left.addr)
  let len := ((scanned.bind fun r => expectChar 0x2C r.2).bind scanDecimal).getD
    (UInt32.ofNat left.len)
  let device := TargetSTM32F1.breakpointsSetClear interface (.goesOn left.behind) left.fuel
  let ((reply, bwList), s) ← s.call fun h => do
    let (reply, bwList, h) ← gdbBreakpoint device set type addr len (s.bwList, h)
    return ((reply, bwList), h)
  { s with bwList := bwList }.put (reply.text left.stack)

/-- `target_attach(last_target, &gdb_controller)`: a target that had a controller is forgotten by it
first. -/
def attachTarget (s : GdbServer σ) : Except Stop (GdbServer σ) := do
  let s := if s.controller then { s with curTarget := false, lastTarget := false } else s
  let (_, s) ← { s with controller := true }.call (stm32Attach interface)
  return { s with curTarget := true }

/-- Attach to the last target if detached. -/
def attachLast (s : GdbServer σ) : Except Stop (GdbServer σ) :=
  if !s.curTarget && s.lastTarget then attachTarget interface s else .ok s

def handleDetach (s : GdbServer σ) : Except Stop (GdbServer σ) := do
  let s ← s.onlyIf s.curTarget (GdbServer.command (stm32Detach interface))
  { s with lastTarget := s.curTarget, curTarget := false }.put (ascii "OK")

def handleKill (s : GdbServer σ) : Except Stop (GdbServer σ) :=
  if s.curTarget then do
    let s ← s.command (stm32Reset interface)
    let s ← s.command (stm32Detach interface)
    return { s with lastTarget := true, curTarget := false }
  else .ok s

def handleRestart (s : GdbServer σ) : Except Stop (GdbServer σ) := do
  let s ← attachLast interface s
  s.onlyIf s.curTarget (GdbServer.command (stm32Reset interface))

/-- The answer to a halt. -/
def stopReply (reason : TargetHaltReason) : List UInt8 :=
  match reason with
  | .error => ascii "X1D"
  | .request => ascii "T02"
  | .watchpoint => ascii "T05watch:00000000;"
  | .fault => ascii "T0B"
  | _ => ascii "T05"

/-- Wait for the target to halt: a character is taken between two questions, and an interrupt asks
for a halt. -/
def waitForHalt : List UInt8 → GdbServer σ → Except Stop (TargetHaltReason × GdbServer σ)
  | [], s => do
    let (reason, s) ← s.call (stm32HaltPoll interface)
    if reason = .running then throw .waits else return (reason, { s with input := [] })
  | c :: input, s => do
    let (reason, s) ← s.call (stm32HaltPoll interface)
    if reason = .running then
      let s ← s.onlyIf (c = 0x03 ∨ c = 0x04) (GdbServer.command (stm32HaltRequest interface))
      waitForHalt input s
    else return (reason, { s with input := c :: input })

/-- `?`. -/
def handleHaltReason (s : GdbServer σ) : Except Stop (GdbServer σ) :=
  if s.curTarget then do
    let (reason, s) ← waitForHalt interface s.input s
    s.put (stopReply reason)
  else s.put (ascii "W00")

/-- `c`. -/
def handleContinue (s : GdbServer σ) : Except Stop (GdbServer σ) :=
  if s.curTarget then do
    let s ← s.command (stm32HaltResume interface s.singleStep)
    handleHaltReason interface { s with singleStep := false }
  else s.put (ascii "X1D")

/-- `qXfer`: a piece of a document of the target. -/
def handleDocument (left : Leftovers) (document : GdbServer σ → Except Fault (List UInt8))
    (param : List UInt8) (s : GdbServer σ) : Except Stop (GdbServer σ) := do
  let s ← attachLast interface s
  if !s.curTarget then s.put (ascii "E01")
  else match document s >>= fun str => qStringReply str param left.room with
    | .ok reply => s.put reply
    | .error e => throw (.fault e)

/-- `qCRC`. -/
def handleCrc (left : Leftovers) (addr alen : ℕ) (s : GdbServer σ) : Except Stop (GdbServer σ) :=
  if !s.curTarget then s.put (ascii "E01")
  else do
    let (crc, s) ← s.call (genericCrc32 interface addr alen ((List.range 128).map left.stack))
    s.put (0x43 :: printHex false crc.toNat)

def handleQ (left : Leftovers) (pbuf : List UInt8) (s : GdbServer σ) : Except Stop (GdbServer σ) :=
  -- the target has no commands of its own
  if (afterText (ascii "qRcmd,") pbuf).isSome then s.put []
  else if (afterText (ascii "qSupported") pbuf).isSome then
    s.put (ascii "PacketSize=400;qXfer:memory-map:read+;qXfer:features:read+")
  else match afterText (ascii "qXfer:memory-map:read::") pbuf with
  | some param =>
    handleDocument interface left (fun s => targetMemMap stm32f1Ram s.target.flash 1024) param s
  | none => match afterText (ascii "qXfer:features:read:target.xml:") pbuf with
  | some param => handleDocument interface left (fun _ => .ok targetTdesc) param s
  | none => match (afterText (ascii "qCRC:") pbuf).map (scanPair pbufSize) with
  | some (some addr, some (alen, _)) => handleCrc interface left addr alen s
  | _ => s.put []

/-- `cur_target = target_attach_n(n, &gdb_controller)`: the targets are counted from one. -/
def attachN (n : ℕ) (s : GdbServer σ) : Except Stop (GdbServer σ) :=
  if n = 1 then attachTarget interface s else .ok { s with curTarget := false }

/-- `vAttach;n`. -/
def handleAttach (n : ℕ) (s : GdbServer σ) : Except Stop (GdbServer σ) := do
  let s ← attachN interface n s
  s.put (if s.curTarget then ascii "T05" else ascii "E01")

def handleRun (left : Leftovers) (tok : List UInt8) (s : GdbServer σ) :
    Except Stop (GdbServer σ) := do
  match vRunCmdline tok ((List.range cmdlineSize).map left.stack) with
  | .error e => throw (.fault e)
  | .ok cmdline =>
    let s ← attachLast interface s
    if s.curTarget then
      match targetSetCmdline cmdline with
      | .error e => throw (.fault e)
      | .ok cmdline =>
        let s ← { s with cmdline := cmdline }.command (stm32Reset interface)
        s.put (ascii "T05")
    else s.put (ascii "E01")

/-- The first flash command resets the target. -/
def handleFlashErase (addr len : ℕ) (s : GdbServer σ) : Except Stop (GdbServer σ) :=
  if !s.curTarget then s.put (ascii "EFF")
  else do
    let s ← s.onlyIf (!s.flashMode) fun s => do
      let s ← s.command (stm32Reset interface)
      return { s with flashMode := true }
    let (ret, s) ← s.callFlash fun t => targetFlashErase interface t addr len
    let s := if ret = 0 then s else { s with flashMode := false }
    s.put (if ret = 0 then ascii "OK" else ascii "EFF")

def handleFlashWrite (left : Leftovers) (addr : ℕ) (bin : List UInt8) (s : GdbServer σ) :
    Except Stop (GdbServer σ) :=
  if !s.curTarget then { s with flashMode := false }.put (ascii "EFF")
  else do
    let (reply, s) ← s.callFlash (gdbFlashWrite interface addr bin)
    let s := if reply = .ok then s else { s with flashMode := false }
    s.put (reply.text left.stack)

/-- The target is not asked for. -/
def handleFlashDone (left : Leftovers) (s : GdbServer σ) : Except Stop (GdbServer σ) :=
  if !s.curTarget then .error (.fault .outOfBounds)
  else do
    let (reply, s) ← s.callFlash (gdbFlashDone interface left.lengthFirst)
    let s ← s.put (reply.text left.stack)
    return { s with flashMode := false }

def handleV (left : Leftovers) (packet pbuf : List UInt8) (s : GdbServer σ) :
    Except Stop (GdbServer σ) :=
  match (afterText (ascii "vAttach;") pbuf).bind (scanHex 8) with
  | some (n, _) => handleAttach interface n s
  | none => match afterText (ascii "vRun") pbuf with
  | some tok => handleRun interface left tok s
  | none => match (afterText (ascii "vFlashErase:") pbuf).map (scanPair 8) with
  | some (some addr, some (len, _)) => handleFlashErase interface addr len s
  | _ => match (afterText (ascii "vFlashWrite:") pbuf).bind (scanHex 8) with
  | some (addr, rest) =>
    let bin := (indexBehind 0x3A pbuf (some rest)).getD left.index
    if bin > packet.length then .error (.fault .outOfBounds)
    else handleFlashWrite interface left addr (packet.drop bin) s
  | none =>
    if cString pbuf = ascii "vFlashDone" then handleFlashDone interface left s
    else s.put []

/-- The `switch` on the first character. -/
def gdbSwitch (left : Leftovers) (packet pbuf : List UInt8) (s : GdbServer σ) :
    Except Stop (GdbServer σ) :=
  match Char.ofUInt8 (pbuf.headD 0) with
  | 'g' => s.ifTarget fun s => s.answer left (gdbReadRegisters interface left.fuel)
  | 'm' => s.ifTarget (handleM interface left pbuf)
  | 'G' => s.ifTarget fun s => s.answer left (gdbWriteRegisters (pbuf.drop 1) left.alloca)
  | 'M' => s.ifTarget fun s => handleWrite left pbuf packet s (gdbWriteMemory interface)
  | 's' => handleContinue interface { s with singleStep := true }
  | 'c' => handleContinue interface s
  | '?' => handleHaltReason interface s
  | 'p' => s.ifTarget fun s => s.answer left (gdbReadRegister interface left.fuel
      (((scanHex pbufSize (pbuf.drop 1)).map Prod.fst).getD left.addr))
  | 'P' => s.ifTarget (handleRegWrite interface left pbuf)
  | 'F' => s.put []
  | '!' => s.put (ascii "OK")
  | '\x04' => handleDetach interface s
  | 'D' => handleDetach interface s
  | 'k' => handleKill interface s
  | 'r' => handleRestart interface s
  | 'R' => handleRestart interface s
  | 'X' => s.ifTarget fun s => handleWrite left pbuf packet s (gdbWriteBinary interface)
  | 'q' => handleQ interface left pbuf s
  | 'v' => handleV interface left packet pbuf s
  | 'Z' => s.ifTarget (handleZ interface left true pbuf)
  | 'z' => s.ifTarget (handleZ interface left false pbuf)
  | _ => s.put []

/-- One round of the loop. -/
def gdbMainRound (left : Leftovers) (s : GdbServer σ) : Except Stop (GdbServer σ) :=
  match gdbGetpacket bufSize s.input with
  | none => .error .waits
  | some (packet, sent, rest) =>
    gdbSwitch interface left packet (packetBuffer left packet)
      { s with input := rest, output := s.output ++ sent }

end BluePill
