import BluePill.Firmware.PacketBounds
import BluePill.Firmware.Replies

/-! What a reply repeats of its packet. A reply carries no number: these bytes are all that says
which packet it belongs to. -/
namespace BluePill
open Lib

/-- Places of the bytes that a reply repeats. The element size of a `MemoryWrite` is not among
them, since the handler replaces one that it finds invalid. -/
def DebugCommand.echoed : DebugCommand → List ℕ
  | .memoryRead => [0, 1, 4, 5, 6, 7]
  | .memoryWrite => [0, 4, 5, 6, 7]
  | .regsRead | .regsWrite => [0, 2, 3]
  | .resetHalt | .breakpoint | .flash | .attach => [0, 1]

/-- The echoed bytes of a packet, or of the reply to one. -/
def echoedBytes (bytes : List UInt8) : List (Option UInt8) :=
  match commandOf bytes with
  | some c => c.echoed.map fun i => bytes[i]?
  | none => []

theorem DebugCommand.lt_of_mem_echoed {c : DebugCommand} {i : ℕ} (h : i ∈ c.echoed) :
    i < c.headSize := by
  have hall : ∀ j ∈ c.echoed, j < c.headSize := by
    cases c <;> decide
  exact hall i h

theorem DebugCommand.zero_mem_echoed (c : DebugCommand) : 0 ∈ c.echoed := by
  cases c <;> decide

theorem commandOf_getElem (bytes : List UInt8) :
    commandOf bytes = bytes[0]?.bind DebugCommand.ofByte := by
  rw [commandOf, List.head?_eq_getElem?]

/-- Two byte strings with the same first byte and the same echoed bytes of its command. -/
theorem echoedBytes_congr {p q : List UInt8} {c : DebugCommand} (hc : commandOf p = some c)
    (h : ∀ i ∈ c.echoed, q[i]? = p[i]?) : echoedBytes q = echoedBytes p := by
  have hq : commandOf q = some c := by
    rw [commandOf_getElem, h 0 c.zero_mem_echoed, ← commandOf_getElem, hc]
  simp only [echoedBytes, hc, hq]
  exact List.map_congr_left h

theorem MemReadWriteHead.eq_of_decode {buf : List UInt8} {head : MemReadWriteHead}
    (h : decode buf = some head) :
    ∃ n₀ n₁ rest, buf = head.cmd :: head.align :: n₀ :: n₁ :: (toLE 4 head.address ++ rest) := by
  match buf, h with
  | c :: al :: n₀ :: n₁ :: a₀ :: a₁ :: a₂ :: a₃ :: rest, h =>
    obtain rfl := Option.some.inj h
    have haddr : toLE 4 (ofLE [a₀, a₁, a₂, a₃]) = [a₀, a₁, a₂, a₃] := toLE_ofLE [a₀, a₁, a₂, a₃]
    exact ⟨n₀, n₁, rest, by rw [haddr]; rfl⟩

theorem RegReadWriteHead.eq_of_decode {buf : List UInt8} {head : RegReadWriteHead}
    (h : decode buf = some head) :
    ∃ rest, buf = head.cmd :: head.regCount :: (toLE 2 head.regIndex ++ rest) := by
  match buf, h with
  | c :: n :: i₀ :: i₁ :: rest, h =>
    obtain rfl := Option.some.inj h
    have hindex : toLE 2 (ofLE [i₀, i₁]) = [i₀, i₁] := toLE_ofLE [i₀, i₁]
    exact ⟨rest, by rw [hindex]; rfl⟩

theorem SubCmdHead.eq_of_decode {buf : List UInt8} {head : SubCmdHead}
    (h : decode buf = some head) : ∃ rest, buf = head.cmd :: head.sub :: rest := by
  match buf, h with
  | c :: s :: x :: y :: rest, h =>
    obtain rfl := Option.some.inj h
    exact ⟨x :: y :: rest, rfl⟩

theorem FlashCmdHead.eq_of_decode {buf : List UInt8} {head : FlashCmdHead}
    (h : decode buf = some head) : ∃ rest, buf = head.cmd :: head.flashCommand :: rest := by
  match buf, h with
  | c :: f :: _ :: _ :: _ :: _ :: _ :: _ :: _ :: _ :: _ :: _ :: _, h =>
    obtain rfl := Option.some.inj h
    exact ⟨_, rfl⟩

theorem BreakpointHead.eq_of_decode {buf : List UInt8} {head : BreakpointHead}
    (h : decode buf = some head) : ∃ rest, buf = head.cmd :: head.set :: rest := by
  match buf, h with
  | c :: s :: _ :: _ :: _, h =>
    obtain rfl := Option.some.inj h
    exact ⟨_, rfl⟩

theorem readHead_decodes {α : Type} (decode : List UInt8 → Option α) (buf : List UInt8) :
    Ensures (readHead decode buf) fun head => decode buf = some head := by
  unfold readHead
  cases h : decode buf with
  | none => exact .error _
  | some head => exact .ok rfl

theorem dbgHeadValid_whole (headSize : ℕ) (inBuf : List UInt8) (inSize : ℕ) (c : DebugCommand) :
    Ensures (dbgHeadValid headSize inBuf inSize c) fun valid =>
      valid = true → headSize ≤ inSize := by
  unfold dbgHeadValid
  refine Ensures.ite (fun _ => .ok fun h => absurd h Bool.false_ne_true) fun hsize => ?_
  rintro valid - -
  exact not_lt.mp hsize

theorem Frame.store_val (f : Frame) (off : ℕ) (bytes : List UInt8) :
    Ensures (f.store off bytes) fun g =>
      g.val = f.val.take off ++ bytes ++ f.val.drop (off + bytes.length) := by
  unfold Frame.store
  by_cases h : off + bytes.length ≤ 64
  · rw [dif_pos h]
    exact .ok rfl
  · rw [dif_neg h]
    exact .error _

/-- A store leaves the bytes before it alone. -/
theorem Frame.store_below (f : Frame) (off : ℕ) (bytes : List UInt8) :
    Ensures (f.store off bytes) fun g => ∀ i < off, g.val[i]? = f.val[i]? := by
  refine (Ensures.mono (f.store_val off bytes)) fun g hg i hi => ?_
  have hbuf : f.val.length = 64 := f.property
  by_cases h : i < 64
  · have htake : i < (f.val.take off).length := by
      rw [List.length_take]
      omega
    rw [hg, List.append_assoc, List.getElem?_append_left htake, List.getElem?_take_of_lt hi]
  · have hbuf' : g.val.length = 64 := g.property
    rw [List.getElem?_eq_none (by omega), List.getElem?_eq_none (by omega)]

/-- A head stored at the front of the reply buffer. -/
theorem Frame.store_front (f : Frame) (bytes : List UInt8) :
    Ensures (f.store 0 bytes) fun g => ∃ rest, g.val = bytes ++ rest := by
  refine (Ensures.mono (f.store_val 0 bytes)) fun g hg => ?_
  rw [List.take_zero, List.nil_append] at hg
  exact ⟨_, hg⟩

/-- What a handler returns, unless it refuses the packet: the reply buffer repeats the packet's
echoed bytes, and all of them are in the packet and in the reply. The IN endpoint is left
alone. -/
structure Echoing (c : DebugCommand) (inBuf : List UInt8) (inSize : ℕ) (d : Device)
    (r : ℕ × Frame × Device) : Prop where
  size : c.headSize ≤ inSize
  places : ∀ i ∈ c.echoed, i < r.1
  bytes : ∀ i ∈ c.echoed, r.2.1.val[i]? = inBuf[i]?
  endpoint : r.2.2.inEndpoint = d.inEndpoint

/-- A handler that refuses the packet or echoes it. -/
def Echoes (c : DebugCommand) (inBuf : List UInt8) (inSize : ℕ) (d : Device)
    (r : HandlerResult) : Prop := Ensures r fun r => r.1 ≠ 0 → Echoing c inBuf inSize d r

section

variable {inBuf : List UInt8} {c : DebugCommand} (inSize : ℕ) (outBuf : Frame) (outSize : ℕ)
  (d : Device)

/-- Behind the checks of the head. -/
theorem echoes_of_valid {α : Type} {headSize : ℕ} (hsize : headSize = c.headSize)
    {decode : List UInt8 → Option α} {reply : α → HandlerResult}
    (h : ∀ head, decode inBuf = some head → c.headSize ≤ inSize →
      Echoes c inBuf inSize d (reply head)) :
    Echoes c inBuf inSize d (do
      if !(← dbgHeadValid headSize inBuf inSize c) then return (0, outBuf, d)
      let head ← readHead decode inBuf
      reply head) := by
  subst hsize
  refine (dbgHeadValid_whole c.headSize inBuf inSize c).bind fun valid hwhole => ?_
  refine Ensures.ite (fun _ => .ok fun h => absurd rfl h) fun hvalid => ?_
  refine (readHead_decodes decode inBuf).bind fun head hdecode => h head hdecode (hwhole ?_)
  simpa using hvalid

theorem cmd_of_commandOf {x : UInt8} {rest : List UInt8} (hc : commandOf (x :: rest) = some c) :
    x = c.toByte := DebugCommand.toByte_of_ofByte hc

/-- A head with the packet's address, whatever its byte count. -/
theorem memHead_echoes (hc : commandOf inBuf = some c) {head : MemReadWriteHead}
    (hdecode : MemReadWriteHead.decode inBuf = some head) {al : UInt8}
    (hal : 1 ∈ c.echoed → al = head.align) (hmem : ∀ i ∈ c.echoed, i ∈ [0, 1, 4, 5, 6, 7]) (n : ℕ)
    (rest : List UInt8) : ∀ i ∈ c.echoed,
      ((⟨c.toByte, al, n, head.address⟩ : MemReadWriteHead).encode ++ rest)[i]? = inBuf[i]? := by
  obtain ⟨n₀, n₁, tail, rfl⟩ := MemReadWriteHead.eq_of_decode hdecode
  obtain hcmd := cmd_of_commandOf hc
  intro i hi
  have hplace := hmem i hi
  simp only [List.mem_cons, List.not_mem_nil, or_false] at hplace
  simp only [MemReadWriteHead.encode, toLE, List.cons_append, List.nil_append]
  rcases hplace with rfl | rfl | rfl | rfl | rfl | rfl
  · rw [hcmd]
    rfl
  · rw [hal hi]
    rfl
  all_goals rfl

theorem memoryReadCommand_echoes (hc : commandOf inBuf = some .memoryRead) :
    Echoes .memoryRead inBuf inSize d (memoryReadCommand inBuf inSize outBuf outSize d) := by
  unfold memoryReadCommand
  refine echoes_of_valid (c := .memoryRead) inSize outBuf d rfl fun head hdecode hsize => ?_
  refine (Frame.store_front outBuf _).bind fun f hf => ?_
  have hhead : ∀ i ∈ DebugCommand.memoryRead.echoed, f.val[i]? = inBuf[i]? := by
    obtain ⟨rest, hf⟩ := hf
    rw [hf]
    exact memHead_echoes hc hdecode (fun _ => rfl) (fun i hi => hi) _ rest
  have hbelow (g : Frame) (hg : ∀ i < 8, g.val[i]? = f.val[i]?) :
      ∀ i ∈ DebugCommand.memoryRead.echoed, g.val[i]? = inBuf[i]? := fun i hi =>
    (hg i (DebugCommand.lt_of_mem_echoed hi)).trans (hhead i hi)
  have hplaces (n : ℕ) : ∀ i ∈ DebugCommand.memoryRead.echoed, i < MemReadWriteHead.size + n :=
    fun i hi => Nat.lt_add_right n (DebugCommand.lt_of_mem_echoed hi)
  refine Ensures.ite (fun _ => ?_) fun _ => ?_
  · -- every store of the copy loop lies behind the head
    have hcopy := dbgMemcpyLoop_ensures (accessWidth head.align.toNat)
      (copyFromTarget head.address MemReadWriteHead.size (accessWidth head.align.toNat))
      (fun s => (∀ i < 8, s.1.val[i]? = f.val[i]?) ∧ s.2.inEndpoint = d.inEndpoint)
      (fun off s hs => (Frame.store_below s.1 _ _).bind fun g hg =>
        .ok ⟨fun i hi => (hg i (Nat.lt_add_right off hi)).trans (hs.1 i hi), hs.2⟩)
    exact (hcopy _ 0 (f, d) ⟨fun i _ => rfl, rfl⟩).bind fun s hs =>
      .ok fun _ => ⟨hsize, hplaces _, hbelow s.1 hs.1, hs.2⟩
  · exact (Frame.store_below f _ _).bind fun g hg =>
      .ok fun _ => ⟨hsize, hplaces _, hbelow g hg, rfl⟩

theorem flashWriteLoop_inEndpoint (address : ℕ) (data : List UInt8) (size dataIndex : ℕ)
    (d : Device) : Ensures (flashWriteLoop address data size dataIndex d) fun e =>
      e.inEndpoint = d.inEndpoint := by
  induction h : size - dataIndex using Nat.strong_induction_on generalizing dataIndex d with
  | _ n ih =>
    rw [flashWriteLoop]
    refine Ensures.ite (fun hlt => ?_) fun _ => .ok rfl
    split
    next lo hi _ _ => exact ih (size - (dataIndex + 2)) (by omega) (dataIndex + 2) _ rfl
    next => exact .error _

theorem memoryWriteCommand_echoes (hc : commandOf inBuf = some .memoryWrite) :
    Echoes .memoryWrite inBuf inSize d (memoryWriteCommand inBuf inSize outBuf outSize d) := by
  unfold memoryWriteCommand
  refine echoes_of_valid (c := .memoryWrite) inSize outBuf d rfl fun head hdecode hsize => ?_
  have hreply (e : Device) (he : e.inEndpoint = d.inEndpoint) (n : ℕ) (al : UInt8) :
      Echoes .memoryWrite inBuf inSize d (do
        let f ← outBuf.store 0 (⟨DebugCommand.memoryWrite.toByte, al, n, head.address⟩ :
          MemReadWriteHead).encode
        return (MemReadWriteHead.size, f, e)) := by
    refine (Frame.store_front outBuf _).bind fun f hf => .ok fun _ =>
      ⟨hsize, fun i hi => DebugCommand.lt_of_mem_echoed hi, ?_, he⟩
    obtain ⟨rest, hf⟩ := hf
    rw [hf]
    exact memHead_echoes hc hdecode (fun h => absurd h (by decide)) (by decide) _ rest
  refine Ensures.ite (fun _ => ?_) fun _ => ?_
  · exact (flashWriteLoop_inEndpoint _ _ _ 0 d).bind fun e he => hreply e he _ _
  · have hcopy := dbgMemcpyLoop_ensures
      (accessWidth (getValidatedAlign head.align.toNat))
      (copyToTarget head.address inBuf MemReadWriteHead.size
        (accessWidth (getValidatedAlign head.align.toNat)))
      (fun e => e.inEndpoint = d.inEndpoint)
      (fun off s hs => (Ensures.any _).bind fun bytes _ => .ok hs)
    exact (hcopy _ 0 d rfl).bind fun e he => hreply e he _ _

/-- A head with the packet's register number, whatever its count. -/
theorem regHead_echoes (hc : commandOf inBuf = some c) (hmem : ∀ i ∈ c.echoed, i ∈ [0, 2, 3])
    {head : RegReadWriteHead} (hdecode : RegReadWriteHead.decode inBuf = some head) (n : UInt8)
    (rest : List UInt8) : ∀ i ∈ c.echoed,
      ((⟨c.toByte, n, head.regIndex⟩ : RegReadWriteHead).encode ++ rest)[i]? = inBuf[i]? := by
  obtain ⟨tail, rfl⟩ := RegReadWriteHead.eq_of_decode hdecode
  obtain hcmd := cmd_of_commandOf hc
  intro i hi
  have hplace := hmem i hi
  simp only [List.mem_cons, List.not_mem_nil, or_false] at hplace
  simp only [RegReadWriteHead.encode, toLE, List.cons_append, List.nil_append]
  rcases hplace with rfl | rfl | rfl
  · rw [hcmd]
    rfl
  all_goals rfl

theorem regsReadCommand_echoes (hc : commandOf inBuf = some .regsRead) :
    Echoes .regsRead inBuf inSize d (regsReadCommand inBuf inSize outBuf outSize d) := by
  unfold regsReadCommand
  refine echoes_of_valid (c := .regsRead) inSize outBuf d rfl fun head hdecode hsize => ?_
  refine Ensures.ite (fun _ => .ok fun h => absurd rfl h) fun _ => ?_
  refine (Ensures.any _).bind fun words _ => ?_
  refine (Ensures.any _).bind fun f _ => ?_
  refine (Frame.store_front f _).bind fun g hg => .ok fun _ =>
    ⟨hsize, fun i hi => Nat.lt_add_right _ (DebugCommand.lt_of_mem_echoed hi), ?_, rfl⟩
  obtain ⟨rest, hg⟩ := hg
  rw [hg]
  exact regHead_echoes hc (fun i hi => hi) hdecode _ rest

theorem regsWriteCommand_echoes (hc : commandOf inBuf = some .regsWrite) :
    Echoes .regsWrite inBuf inSize d (regsWriteCommand inBuf inSize outBuf outSize d) := by
  unfold regsWriteCommand
  refine echoes_of_valid (c := .regsWrite) inSize outBuf d rfl fun head hdecode hsize => ?_
  refine Ensures.ite (fun _ => .ok fun h => absurd rfl h) fun _ => ?_
  refine (Ensures.any _).bind fun context _ => ?_
  refine (Frame.store_front outBuf _).bind fun g hg => .ok fun _ =>
    ⟨hsize, fun i hi => DebugCommand.lt_of_mem_echoed hi, ?_, rfl⟩
  obtain ⟨rest, hg⟩ := hg
  rw [hg]
  exact regHead_echoes hc (fun i hi => hi) hdecode _ rest

/-- A reply that begins with the packet's first two bytes. -/
theorem two_echoes (hc : commandOf inBuf = some c) (hmem : ∀ i ∈ c.echoed, i ∈ [0, 1])
    {x y : UInt8} {tail : List UInt8} (hbuf : inBuf = x :: y :: tail) (rest : List UInt8) :
    ∀ i ∈ c.echoed, (c.toByte :: y :: rest)[i]? = inBuf[i]? := by
  subst hbuf
  obtain hcmd := cmd_of_commandOf hc
  intro i hi
  have hplace := hmem i hi
  simp only [List.mem_cons, List.not_mem_nil, or_false] at hplace
  rcases hplace with rfl | rfl
  · rw [hcmd]
    rfl
  · rfl

theorem resetHaltCommand_echoes (hc : commandOf inBuf = some .resetHalt) :
    Echoes .resetHalt inBuf inSize d (resetHaltCommand inBuf inSize outBuf outSize d) := by
  unfold resetHaltCommand
  refine echoes_of_valid (c := .resetHalt) inSize outBuf d rfl fun head hdecode hsize => ?_
  refine (Frame.store_front outBuf _).bind fun g hg => .ok fun _ =>
    ⟨hsize, fun i hi => DebugCommand.lt_of_mem_echoed hi, ?_, ?_⟩
  · obtain ⟨rest, hg⟩ := hg
    obtain ⟨tail, hbuf⟩ := SubCmdHead.eq_of_decode hdecode
    rw [hg]
    exact two_echoes hc (fun i hi => hi) hbuf _
  · rcases ResetHaltCommand.ofByte head.sub with _ | cmd
    · rfl
    · cases cmd <;> rfl

theorem flashCommand_echoes (hc : commandOf inBuf = some .flash) :
    Echoes .flash inBuf inSize d (flashCommand inBuf inSize outBuf outSize d) := by
  unfold flashCommand
  refine echoes_of_valid (c := .flash) inSize outBuf d rfl fun head hdecode hsize => ?_
  obtain ⟨tail, hbuf⟩ := FlashCmdHead.eq_of_decode hdecode
  have hreply (e : Device) (he : e.inEndpoint = d.inEndpoint) (status : UInt8) :
      Echoes .flash inBuf inSize d (do
        let f ← outBuf.store 0 [DebugCommand.flash.toByte, head.flashCommand, status]
        return (4, f, e)) := by
    have hplaces : ∀ i ∈ DebugCommand.flash.echoed, i < 4 := by decide
    refine (Frame.store_front outBuf _).bind fun g hg => .ok fun _ => ⟨hsize, hplaces, ?_, he⟩
    obtain ⟨rest, hg⟩ := hg
    rw [hg]
    exact two_echoes hc (fun i hi => hi) hbuf _
  rcases FlashCommand.ofByte head.flashCommand with _ | cmd
  · exact hreply _ rfl _
  · cases cmd with
    | unlock => exact hreply d.debugStartLocalLoop.2 rfl 1
    | lock => exact hreply d rfl 0
    | erase => exact hreply (d.debugStartEraseLoop head.address head.blockSize).2 rfl 1
    | detach => exact hreply d.debugStartFirmware.2 rfl 1

theorem attachCommand_echoes (hc : commandOf inBuf = some .attach) :
    Echoes .attach inBuf inSize d (attachCommand inBuf inSize outBuf outSize d) := by
  unfold attachCommand
  refine echoes_of_valid (c := .attach) inSize outBuf d rfl fun head hdecode hsize => ?_
  refine (Frame.store_front outBuf _).bind fun g hg => .ok fun _ =>
    ⟨hsize, fun i hi => DebugCommand.lt_of_mem_echoed hi, ?_, ?_⟩
  · obtain ⟨rest, hg⟩ := hg
    obtain ⟨tail, hbuf⟩ := SubCmdHead.eq_of_decode hdecode
    have hcmd : head.cmd = DebugCommand.attach.toByte := by
      rw [hbuf] at hc
      exact cmd_of_commandOf hc
    rw [hg, hcmd]
    exact two_echoes hc (fun i hi => hi) hbuf _
  · have hhalt (e : Device) (he : e.inEndpoint = d.inEndpoint) :
        (if head.sub = 1 then (e.debugStartFirmware.2.debugResume false).2 else e).inEndpoint =
          d.inEndpoint := by
      split_ifs <;> exact he
    exact hhalt _ (by split_ifs <;> rfl)

theorem breakpointCommand_echoes (hc : commandOf inBuf = some .breakpoint) :
    Echoes .breakpoint inBuf inSize d (breakpointCommand inBuf inSize outBuf outSize d) := by
  unfold breakpointCommand
  refine echoes_of_valid (c := .breakpoint) inSize outBuf d rfl fun head hdecode hsize => ?_
  refine (Frame.store_front outBuf _).bind fun g hg => ?_
  refine (Ensures.any _).bind fun fpComp _ => .ok fun _ =>
    ⟨hsize, fun i hi => DebugCommand.lt_of_mem_echoed hi, ?_, rfl⟩
  obtain ⟨rest, hg⟩ := hg
  obtain ⟨tail, hbuf⟩ := BreakpointHead.eq_of_decode hdecode
  rw [hg]
  exact two_echoes hc (fun i hi => hi) hbuf _

theorem dispatchCommand_echoes : Ensures (dispatchCommand inBuf inSize outBuf d) fun r =>
    r.1 ≠ 0 → ∃ c, commandOf inBuf = some c ∧ Echoing c inBuf inSize d r := by
  rcases inBuf with _ | ⟨b, rest⟩
  · exact .error _
  · have hof : commandOf (b :: rest) = DebugCommand.ofByte b := rfl
    rcases hb : DebugCommand.ofByte b with _ | c
    · simp only [dispatchCommand, hb]
      exact .ok fun h => absurd rfl h
    · have hc : commandOf (b :: rest) = some c := hof.trans hb
      have hecho : Echoes c (b :: rest) inSize d (dispatchCommand (b :: rest) inSize outBuf d) := by
        simp only [dispatchCommand, hb]
        cases c with
        | memoryRead => exact memoryReadCommand_echoes _ _ _ _ hc
        | memoryWrite => exact memoryWriteCommand_echoes _ _ _ _ hc
        | regsRead => exact regsReadCommand_echoes _ _ _ _ hc
        | regsWrite => exact regsWriteCommand_echoes _ _ _ _ hc
        | resetHalt => exact resetHaltCommand_echoes _ _ _ _ hc
        | breakpoint => exact breakpointCommand_echoes _ _ _ _ hc
        | flash => exact flashCommand_echoes _ _ _ _ hc
        | attach => exact attachCommand_echoes _ _ _ _ hc
      exact hecho.mono fun r hr hne => ⟨c, hc, hr hne⟩

end

/-- What a packet leaves in the IN endpoint: the reply that waits there, else a reply that repeats
the packet's echoed bytes. -/
theorem usbDataOutCallback_echoes {packet : List UInt8} {d e : Device} (hne : packet ≠ [])
    (hlen : packet.length ≤ 64) (h : usbDataOutCallback packet d = .ok e) :
    ∃ reply, e.inEndpoint = some (d.inEndpoint.getD reply) ∧
      echoedBytes (reply.take 64) = echoedBytes packet := by
  have hpos : packet.length ≠ 0 := fun h0 => hne (List.length_eq_zero_iff.mp h0)
  simp only [usbDataOutCallback, List.take_of_length_le hlen, hpos, if_false] at h
  obtain ⟨⟨n, f, d'⟩, hdispatch, hend⟩ := bind_eq_ok.mp h
  simp only at hend
  by_cases hn : n = 0
  · rw [if_pos hn] at hend
    cases hend
  rw [if_neg hn] at hend
  obtain rfl := Except.ok.inj hend
  rw [Frame.receive_val _ hlen] at hdispatch
  obtain ⟨c, hc, hecho⟩ := dispatchCommand_echoes _ _ _ _ hdispatch hn
  have hpoint : d'.inEndpoint = d.inEndpoint := hecho.endpoint
  refine ⟨f.val.take n, ?_, ?_⟩
  · rw [epWritePacket_inEndpoint, ← hpoint]
  · have hinside (i : ℕ) (hi : i ∈ c.echoed) : i < packet.length :=
      (DebugCommand.lt_of_mem_echoed hi).trans_le hecho.size
    have hpacket (i : ℕ) (hi : i ∈ c.echoed) :
        (packet ++ d.usbCmdFrame.val.drop packet.length)[i]? = packet[i]? :=
      List.getElem?_append_left (hinside i hi)
    refine echoedBytes_congr (c := c) ?_ fun i hi => ?_
    · rw [commandOf_getElem, ← hpacket 0 c.zero_mem_echoed, ← commandOf_getElem, hc]
    · have hi64 : i < 64 := (hinside i hi).trans_le hlen
      rw [List.getElem?_take_of_lt hi64, List.getElem?_take_of_lt (hecho.places i hi),
        hecho.bytes i hi, hpacket i hi]

end BluePill
