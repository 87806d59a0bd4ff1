import BluePill.Firmware.Breakpoints
import BluePill.Host.Exchanges

/-! `breakpointsSetClear` of `TargetSTM32F1.cpp`. Its copy takes eight elements for each one that is
sent, so that it leaves the list and the buffer. -/
namespace BluePill
open Lib

/-- `struct Breakpoint` of the host. -/
structure Breakpoint where
  address : UInt32
  type : UInt8
  size : UInt8
  reserved : UInt16
  deriving DecidableEq, Repr

def Breakpoint.encode (b : Breakpoint) : List UInt8 :=
  toLE 4 b.address.toNat ++ b.type :: b.size :: toLE 2 b.reserved.toNat

@[simp] theorem Breakpoint.encode_length (b : Breakpoint) : b.encode.length = 8 := by
  simp [Breakpoint.encode]

/-- An access behind an array, which C++ leaves undefined: it ends the program, or it goes on in
the memory there. `behind` is what lies behind the list. -/
inductive Overrun
  | stops
  | goesOn (behind : ℕ → UInt8)

namespace Overrun

/-- The bytes `[first, first + n)` from the start of the list on. -/
def load (overrun : Overrun) (list : List UInt8) (first n : ℕ) : Except Fault (List UInt8) :=
  match overrun with
  | stops => readBytes list first n
  | goesOn behind =>
    .ok ((List.range n).map fun i => (list[first + i]?).getD (behind (first + i)))

/-- A store into a buffer, with what went behind it. -/
def store (overrun : Overrun) (buf : Frame) (off : ℕ) (bytes : List UInt8) :
    Except Fault (Frame × List UInt8) :=
  match overrun with
  | stops => do
    let buf ← buf.store off bytes
    return (buf, [])
  | goesOn _ => do
    let buf ← buf.store off (bytes.take (64 - off))
    return (buf, bytes.drop (64 - off))

end Overrun

/-- How many breakpoints fit is computed with the size of the head and that of a breakpoint in each
other's place. -/
def MakeHead.breakpointSetClear (buf : Frame) (breakpointCount : ℕ) (set : Bool) :
    Except Fault (ℕ × Frame) := do
  let maxSendBytesCount := 64 - Breakpoint.bytes
  let sendBreakpointsCount := maxSendBytesCount / BreakpointHead.size
  let sendBreakpointsCount :=
    if sendBreakpointsCount < breakpointCount then sendBreakpointsCount else breakpointCount
  let head : BreakpointHead :=
    ⟨DebugCommand.breakpoint.toByte, if set then 1 else 0, sendBreakpointsCount⟩
  let buf ← buf.store 0 head.encode
  return (BreakpointHead.size, buf)

namespace TargetSTM32F1

variable {σ : Type} (interface : TargetInterface σ)

/-- One round of the loop of `breakpointsSetClear`: none for each `break`. The count in the packet is
that of the whole list, and the end of the copy is a pointer to elements moved by a number of
bytes. -/
def breakpointsRound (overrun : Overrun) (breakpoints : List Breakpoint) (set : Bool)
    (breakpointIndex : ℕ) (h : Host σ) : Except Fault (Option ℕ × Host σ) := do
  let (cmdHeadSize, out) ← MakeHead.breakpointSetClear h.outBuf breakpoints.length set
  let cmdHead ← readHead BreakpointHead.decode out.val
  let elements := Breakpoint.bytes * cmdHead.count
  let bytes ← overrun.load (breakpoints.flatMap Breakpoint.encode)
    (Breakpoint.bytes * breakpointIndex) (Breakpoint.bytes * elements)
  let (out, spilled) ← overrun.store out cmdHeadSize bytes
  let packet ← readBytes (out.val ++ spilled) 0 (cmdHeadSize + cmdHead.count * Breakpoint.bytes)
  let (reply, link) := exchange interface packet h.link
  let h := { h with outBuf := out, inBuf := h.inBuf.receive reply, link := link }
  if reply.length < BreakpointHead.size then return (none, h)
  let ansHead ← readHead BreakpointHead.decode h.inBuf.val
  if ansHead.cmd ≠ cmdHead.cmd then return (none, h)
  if ansHead.set ≠ cmdHead.set then return (none, h)
  if ansHead.count > ansHead.count then return (none, h)
  return (some ansHead.count, h)

/-- `fuel` bounds the rounds of the loop. -/
def breakpointsSetClear (overrun : Overrun) (fuel : ℕ) (breakpoints : List Breakpoint) (set : Bool)
    (h : Host σ) : Except Fault (ℕ × Host σ) :=
  rounds (breakpointsRound interface overrun breakpoints set) breakpoints.length .neverReturns
    fuel 0 h

end TargetSTM32F1

variable {σ : Type} {interface : TargetInterface σ} {h : Host σ} {breakpoints : List Breakpoint}
  {set : Bool}

/-- The number of breakpoints that a packet counts. -/
def sentCount (breakpoints : List Breakpoint) : ℕ := min 14 breakpoints.length

def breakpointHeadFor (breakpoints : List Breakpoint) (set : Bool) : BreakpointHead :=
  ⟨DebugCommand.breakpoint.toByte, if set then 1 else 0, sentCount breakpoints⟩

theorem breakpointSetClear_ok (buf : Frame) (breakpoints : List Breakpoint) (set : Bool) :
    ∃ out : Frame, MakeHead.breakpointSetClear buf breakpoints.length set = .ok (4, out) ∧
      out.val.take 4 = (breakpointHeadFor breakpoints set).encode ∧
      readHead BreakpointHead.decode out.val = .ok (breakpointHeadFor breakpoints set) := by
  have hcount : (if (64 - Breakpoint.bytes) / BreakpointHead.size < breakpoints.length then
      (64 - Breakpoint.bytes) / BreakpointHead.size else breakpoints.length) =
        sentCount breakpoints := by
    simp only [Breakpoint.bytes, BreakpointHead.size, sentCount]
    split_ifs <;> omega
  have hlen : (breakpointHeadFor breakpoints set).encode.length = 4 := by
    simp [BreakpointHead.encode]
  have hlt : (breakpointHeadFor breakpoints set).count < 65536 := by
    show min 14 breakpoints.length < 65536
    omega
  obtain ⟨out, hstore⟩ := exists_store buf 0 (breakpointHeadFor breakpoints set).encode (by omega)
  obtain ⟨rest, hout⟩ := Frame.store_front buf _ out hstore
  refine ⟨out, ?_, ?_, ?_⟩
  · unfold MakeHead.breakpointSetClear
    simp only [hcount]
    exact bind_of_ok hstore
  · rw [hout, List.take_left' hlen]
  · unfold readHead
    rw [hout, BreakpointHead.decode_encode_append hlt]

@[simp] theorem encodeAll_length (breakpoints : List Breakpoint) :
    (breakpoints.flatMap Breakpoint.encode).length = 8 * breakpoints.length := by
  induction breakpoints with
  | nil => rfl
  | cons b rest ih =>
    rw [List.flatMap_cons, List.length_append, ih, Breakpoint.encode_length, List.length_cons]
    omega

/-- One packet for each part of the list, of at most 64 bytes, and the parts in order are the
list. -/
def SentExactly (breakpoints : List Breakpoint) (set : Bool) (packets : List (List UInt8)) : Prop :=
  ∃ parts : List (List Breakpoint), parts.flatten = breakpoints ∧
    packets = parts.map (fun part => (BreakpointHead.mk DebugCommand.breakpoint.toByte
      (if set then 1 else 0) part.length).encode ++ part.flatMap Breakpoint.encode) ∧
    ∀ packet ∈ packets, packet.length ≤ 64

variable (interface) in
/-- The copy for the first packet leaves the list, or at least 112 breakpoints later the buffer. -/
theorem breakpointsRound_stops (h : Host σ) (hne : breakpoints ≠ []) :
    TargetSTM32F1.breakpointsRound interface .stops breakpoints set 0 h = .error .outOfBounds := by
  have hpos : 0 < breakpoints.length := List.length_pos_iff.mpr hne
  obtain ⟨out, hmake, -, hread⟩ := breakpointSetClear_ok h.outBuf breakpoints set
  have hcount : (breakpointHeadFor breakpoints set).count = min 14 breakpoints.length := rfl
  unfold TargetSTM32F1.breakpointsRound
  rw [bind_of_ok hmake]
  simp only
  rw [bind_of_ok hread]
  by_cases hinside : 0 + 64 * min 14 breakpoints.length ≤ 8 * breakpoints.length
  · have hload : Overrun.stops.load (breakpoints.flatMap Breakpoint.encode)
        (Breakpoint.bytes * 0) (Breakpoint.bytes * (Breakpoint.bytes *
          (breakpointHeadFor breakpoints set).count)) =
        .ok ((breakpoints.flatMap Breakpoint.encode).take (64 * min 14 breakpoints.length)) := by
      unfold Overrun.load readBytes
      rw [hcount, ← Nat.mul_assoc, if_pos (by rw [encodeAll_length]; exact hinside)]
      rfl
    rw [bind_of_ok hload]
    apply bind_of_error
    apply bind_of_error
    unfold Frame.store
    rw [dif_neg]
    rw [List.length_take, encodeAll_length]
    omega
  · apply bind_of_error
    unfold Overrun.load readBytes
    rw [hcount, ← Nat.mul_assoc, if_neg]
    rw [encodeAll_length]
    exact hinside

/-- A list goes out exactly, with no access outside the list and the buffer, only if there is nothing
to send. -/
theorem breakpointsSetClear_exact_iff (interface : TargetInterface σ) (h : Host σ)
    (breakpoints : List Breakpoint) (set : Bool) :
    (∃ fuel h', TargetSTM32F1.breakpointsSetClear (logged interface) .stops fuel breakpoints set
        h.unlogged = .ok (breakpoints.length, h') ∧
      SentExactly breakpoints set (h'.link.2.map Exchange.packet)) ↔
    breakpoints = [] := by
  constructor
  · rintro ⟨fuel, h', hrun, -⟩
    by_contra hne
    have hpos : 0 < breakpoints.length := List.length_pos_iff.mpr hne
    unfold TargetSTM32F1.breakpointsSetClear at hrun
    cases fuel with
    | zero =>
      rw [rounds, if_pos hpos] at hrun
      cases hrun
    | succ fuel =>
      rw [rounds, if_pos hpos, breakpointsRound_stops _ _ hne] at hrun
      cases hrun
  · rintro rfl
    refine ⟨0, h.unlogged, rfl, [], rfl, rfl, ?_⟩
    intro packet hpacket
    exact absurd hpacket List.not_mem_nil

/-- A device that confirms the count of each packet. -/
def confirmingDevice : TargetInterface (List UInt8) where
  writePacket packet _ := (packet.length, packet.take 4)
  readPacket size reply := (reply.take size, reply)

/-- One breakpoint. -/
theorem not_breakpointsSetClear_exact :
    ¬ ∃ fuel h', TargetSTM32F1.breakpointsSetClear (logged confirmingDevice) .stops fuel
        [⟨0x08004000, 1, 2, 0⟩] true (Host.mk Frame.zero Frame.zero []).unlogged = .ok (1, h') ∧
      SentExactly [⟨0x08004000, 1, 2, 0⟩] true (h'.link.2.map Exchange.packet) := by
  rintro ⟨fuel, h', hrun, -⟩
  cases fuel with
  | zero => cases hrun
  | succ fuel => cases hrun

variable {behind : ℕ → UInt8}

/-- The packet of the round at `breakpointIndex`. -/
def breakpointsPacket (behind : ℕ → UInt8) (breakpoints : List Breakpoint) (set : Bool)
    (breakpointIndex : ℕ) : List UInt8 :=
  (breakpointHeadFor breakpoints set).encode ++
    (List.range (8 * sentCount breakpoints)).map fun i =>
      ((breakpoints.flatMap Breakpoint.encode)[8 * breakpointIndex + i]?).getD
        (behind (8 * breakpointIndex + i))

/-- The count of a reply that repeats the command and whether it sets. -/
def confirmed (set : Bool) (reply : List UInt8) : Option ℕ :=
  match BreakpointHead.decode reply with
  | some ans =>
    if ans.cmd = DebugCommand.breakpoint.toByte ∧ ans.set = (if set then 1 else 0) then
      some ans.count
    else none
  | none => none

theorem breakpointsPacket_length (breakpointIndex : ℕ) :
    (breakpointsPacket behind breakpoints set breakpointIndex).length =
      4 + 8 * sentCount breakpoints := by
  simp [breakpointsPacket, BreakpointHead.encode]
  omega

/-- What a packet takes from the buffer and from behind it are the bytes of the copy. -/
theorem goesOn_store (buf : Frame) (off m : ℕ) (behind : ℕ → UInt8) (bytes : List UInt8)
    (hoff : off ≤ 64) (hm : m ≤ bytes.length) :
    ∃ out spilled, (Overrun.goesOn behind).store buf off bytes = .ok (out, spilled) ∧
      readBytes (out.val ++ spilled) 0 (off + m) = .ok (buf.val.take off ++ bytes.take m) := by
  have hbuf : buf.val.length = 64 := buf.property
  obtain ⟨out, hstore⟩ := exists_store buf off (bytes.take (64 - off)) (by
    rw [List.length_take]
    omega)
  have hout := Frame.store_val buf off _ out hstore
  have hwhole : ∃ rest, out.val ++ bytes.drop (64 - off) = buf.val.take off ++ bytes ++ rest := by
    by_cases hfits : bytes.length ≤ 64 - off
    · refine ⟨buf.val.drop (off + bytes.length), ?_⟩
      rw [hout, List.take_of_length_le hfits, List.drop_of_length_le hfits, List.append_nil]
    · refine ⟨[], ?_⟩
      have hnil : buf.val.drop (off + (bytes.take (64 - off)).length) = [] := by
        apply List.drop_of_length_le
        rw [List.length_take]
        omega
      rw [hout, hnil, List.append_nil, List.append_nil, List.append_assoc, List.take_append_drop]
  obtain ⟨rest, hwhole⟩ := hwhole
  have htake : (buf.val.take off).length = off := by
    rw [List.length_take]
    omega
  refine ⟨out, bytes.drop (64 - off), bind_of_ok hstore, ?_⟩
  unfold readBytes
  rw [hwhole, if_pos, List.drop_zero, List.append_assoc, List.take_append, htake,
    List.take_of_length_le (by omega : (buf.val.take off).length ≤ off + m), Nat.add_sub_cancel_left,
    List.take_append_of_le_length hm]
  · simp only [List.length_append]
    omega

theorem decode_receive_breakpoint (f : Frame) {reply : List UInt8} (hlen : reply.length ≤ 64)
    (hlong : ¬ reply.length < BreakpointHead.size) :
    BreakpointHead.decode (f.receive reply).val = BreakpointHead.decode reply := by
  rw [f.receive_val hlen]
  obtain ⟨c, s, n₀, n₁, rest, rfl⟩ := exists_four (not_lt.mp hlong)
  rfl

variable (interface breakpoints set behind) in
/-- A round is one exchange, whatever lies behind the list. -/
theorem breakpointsRound_goesOn (h : Host σ) (breakpointIndex : ℕ) :
    ∃ out, TargetSTM32F1.breakpointsRound interface (.goesOn behind) breakpoints set breakpointIndex
        h = .ok (confirmed set
          (exchange interface (breakpointsPacket behind breakpoints set breakpointIndex) h.link).1,
        ⟨out, h.inBuf.receive (exchange interface
            (breakpointsPacket behind breakpoints set breakpointIndex) h.link).1,
          (exchange interface
            (breakpointsPacket behind breakpoints set breakpointIndex) h.link).2⟩) := by
  obtain ⟨out, hmake, htake, hread⟩ := breakpointSetClear_ok h.outBuf breakpoints set
  have hcount : (breakpointHeadFor breakpoints set).count = sentCount breakpoints := rfl
  set bytes := (List.range (Breakpoint.bytes * (Breakpoint.bytes * sentCount breakpoints))).map
    fun i => ((breakpoints.flatMap Breakpoint.encode)[8 * breakpointIndex + i]?).getD
      (behind (8 * breakpointIndex + i)) with hbytes
  have hlen : bytes.length = 64 * sentCount breakpoints := by
    rw [hbytes, List.length_map, List.length_range]
    simp only [Breakpoint.bytes]
    omega
  obtain ⟨out', spilled, hstore, hpacket⟩ := goesOn_store out 4
    (sentCount breakpoints * Breakpoint.bytes) behind bytes (by omega) (by
      simp only [Breakpoint.bytes]
      omega)
  have hwhole : out.val.take 4 ++ bytes.take (sentCount breakpoints * Breakpoint.bytes) =
      breakpointsPacket behind breakpoints set breakpointIndex := by
    have hmin : min (sentCount breakpoints * Breakpoint.bytes)
        (Breakpoint.bytes * (Breakpoint.bytes * sentCount breakpoints)) =
          8 * sentCount breakpoints := by
      simp only [Breakpoint.bytes]
      omega
    rw [htake, hbytes, ← List.map_take, List.take_range, hmin]
    rfl
  rw [hwhole] at hpacket
  refine ⟨out', ?_⟩
  unfold TargetSTM32F1.breakpointsRound
  rw [bind_of_ok hmake]
  simp only
  rw [bind_of_ok hread]
  simp only [hcount]
  rw [show (Overrun.goesOn behind).load (breakpoints.flatMap Breakpoint.encode)
    (Breakpoint.bytes * breakpointIndex)
    (Breakpoint.bytes * (Breakpoint.bytes * sentCount breakpoints)) = .ok bytes from rfl,
    bind_of_ok rfl, bind_of_ok hstore]
  simp only
  rw [bind_of_ok hpacket]
  have hreply := exchange_length_le interface
    (breakpointsPacket behind breakpoints set breakpointIndex) h.link
  generalize exchange interface (breakpointsPacket behind breakpoints set breakpointIndex) h.link =
    answer at hreply ⊢
  obtain ⟨reply, link⟩ := answer
  dsimp only at hreply ⊢
  by_cases hshort : reply.length < BreakpointHead.size
  · have hnone : confirmed set reply = none := by
      unfold confirmed
      match reply, hshort with
      | [], _ | [_], _ | [_, _], _ | [_, _, _], _ => rfl
    rw [if_pos hshort, hnone]
    rfl
  · rw [if_neg hshort]
    have hans := decode_receive_breakpoint h.inBuf hreply hshort
    obtain ⟨ans, hdecode⟩ : ∃ ans, BreakpointHead.decode reply = some ans := by
      obtain ⟨c, s, n₀, n₁, rest, rfl⟩ := exists_four (not_lt.mp hshort)
      exact ⟨_, rfl⟩
    have hreadAns : readHead BreakpointHead.decode (h.inBuf.receive reply).val = .ok ans := by
      unfold readHead
      rw [hans, hdecode]
    rw [bind_of_ok hreadAns]
    have hconfirmed : confirmed set reply =
        if ans.cmd = DebugCommand.breakpoint.toByte ∧ ans.set = (if set then 1 else 0) then
          some ans.count
        else none := by
      unfold confirmed
      rw [hdecode]
    rw [hconfirmed]
    show (if ans.cmd ≠ DebugCommand.breakpoint.toByte then _ else
      if ans.set ≠ (if set then 1 else 0) then _ else if ans.count > ans.count then _ else _) = _
    by_cases hcmd : ans.cmd = DebugCommand.breakpoint.toByte
    · by_cases hset : ans.set = (if set then 1 else 0)
      · rw [if_neg (not_not.mpr hcmd), if_neg (not_not.mpr hset), if_neg (lt_irrefl _),
          if_pos ⟨hcmd, hset⟩]
        rfl
      · rw [if_neg (not_not.mpr hcmd), if_pos hset, if_neg fun h => hset h.2]
        rfl
    · rw [if_pos hcmd, if_neg fun h => hcmd h.1]
      rfl

end BluePill
