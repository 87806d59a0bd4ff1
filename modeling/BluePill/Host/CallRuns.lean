import BluePill.Firmware.ReplyEcho
import BluePill.Host.Exchanges

/-! Runs of `memRead`, `regsRead`, `resetHaltResume` and `flashCmd` over any link, exchange by
exchange, and the replies that these calls accept. -/
namespace BluePill
open Lib

/-- A packet of one of the calls, by the arguments it is made from. -/
inductive CallPacket where
  | memRead (address accessSize elementCount : ℕ)
  | regsRead (regIndex regCount : ℕ)
  | resetHaltResume (command : ResetHaltCommand)
  | flashCmd (command : FlashCommand) (address blockSizeBytes : ℕ)
  deriving DecidableEq, Repr

namespace CallPacket

def make : CallPacket → Frame → Except Fault (ℕ × Frame)
  | .memRead address accessSize elementCount, buf =>
    MakeHead.memReadCmd buf address accessSize elementCount
  | .regsRead regIndex regCount, buf => MakeHead.regsRead buf regIndex regCount
  | .resetHaltResume command, buf => MakeHead.resetHaltResume buf command
  | .flashCmd command address blockSizeBytes, buf =>
    MakeHead.flashCmd buf command address blockSizeBytes

def command : CallPacket → DebugCommand
  | .memRead .. => .memoryRead
  | .regsRead .. => .regsRead
  | .resetHaltResume _ => .resetHalt
  | .flashCmd .. => .flash

end CallPacket

variable {σ : Type}

/-- The checks that a call makes on the reply to one of its packets. -/
def Accepts (packet reply : List UInt8) : Prop :=
  match commandOf packet with
  | some .memoryRead =>
    ∃ cmdHead ∈ MemReadWriteHead.decode packet, ∃ ansHead ∈ MemReadWriteHead.decode reply,
      TargetSTM32F1.headsAgree cmdHead ansHead ∧ ansHead.byteCount ≠ 0
  | some .regsRead =>
    ∃ cmdHead ∈ RegReadWriteHead.decode packet, ∃ ansHead ∈ RegReadWriteHead.decode reply,
      cmdHead.cmd = ansHead.cmd ∧ cmdHead.regIndex = ansHead.regIndex ∧
        ¬ cmdHead.regCount < ansHead.regCount
  | some .resetHalt =>
    ∃ cmdHead ∈ SubCmdHead.decode packet, ∃ ansHead ∈ SubCmdHead.decode reply,
      cmdHead.cmd = ansHead.cmd ∧ cmdHead.sub = ansHead.sub
  | some .flash =>
    ∃ cmdHead ∈ FlashCmdHead.decode packet, ∃ ansHead ∈ FlashAnsHead.decode reply,
      cmdHead.cmd = ansHead.cmd ∧ cmdHead.flashCommand = ansHead.flashCommand
  | _ => False

/-- One of the calls, with a bound on the rounds of `regsRead`. -/
inductive HostCall where
  | memRead (address accessSize elementCount : ℕ)
  | regsRead (fuel regIndex regCount : ℕ)
  | resetHaltResume (command : ResetHaltCommand)
  | flashCmd (command : FlashCommand) (address blockSizeBytes : ℕ)
  deriving DecidableEq, Repr

/-- The host after the call. -/
def HostCall.run (interface : TargetInterface σ) (h : Host σ) : HostCall → Except Fault (Host σ)
  | .memRead address accessSize elementCount => do
    let (_, h) ← TargetSTM32F1.memRead interface address accessSize elementCount h
    return h
  | .regsRead fuel regIndex regCount => do
    let (_, h) ← TargetSTM32F1.regsRead interface fuel regIndex regCount h
    return h
  | .resetHaltResume command => do
    let (_, h) ← TargetSTM32F1.resetHaltResume interface command h
    return h
  | .flashCmd command address blockSizeBytes => do
    let (_, h) ← TargetSTM32F1.flashCmd interface command address blockSizeBytes h
    return h

/-- One exchange of a call, and whether the call accepts the reply. -/
def Host.Exchanges (interface : TargetInterface σ) (h h' : Host σ) (accepts : Prop) : Prop :=
  ∃ (p : CallPacket) (n : ℕ) (out : Frame) (reply : List UInt8) (l : σ),
    p.make h.outBuf = .ok (n, out) ∧ n ≠ 0 ∧
      exchange interface (out.val.take n) h.link = (reply, l) ∧
      h' = ⟨out, h.inBuf.receive reply, l⟩ ∧ (accepts ↔ Accepts (out.val.take n) reply)

/-- What the host gets to from `h` by the exchanges of its calls, one after the other. The last
call may still be at work, or never return. -/
inductive Host.Calls (interface : TargetInterface σ) (h : Host σ) : Host σ → Prop
  | start : Calls interface h h
  | next {h₁ h₂ : Host σ} {accepts : Prop} (hcalls : Calls interface h h₁)
      (hx : h₁.Exchanges interface h₂ accepts) : Calls interface h h₂

variable {interface : TargetInterface σ}

theorem RegReadWriteHead.decode_append {bytes : List UInt8} (rest : List UInt8)
    (h : RegReadWriteHead.size ≤ bytes.length) : decode (bytes ++ rest) = decode bytes := by
  obtain ⟨a, b, c, d, tail, rfl⟩ := exists_four h
  rfl

theorem SubCmdHead.decode_append {bytes : List UInt8} (rest : List UInt8)
    (h : SubCmdHead.size ≤ bytes.length) : decode (bytes ++ rest) = decode bytes := by
  obtain ⟨a, b, c, d, tail, rfl⟩ := exists_four h
  rfl

theorem FlashAnsHead.decode_append {bytes : List UInt8} (rest : List UInt8)
    (h : FlashAnsHead.size ≤ bytes.length) : decode (bytes ++ rest) = decode bytes := by
  obtain ⟨a, b, c, d, tail, rfl⟩ := exists_four h
  rfl

theorem FlashAnsHead.eq_of_decode {buf : List UInt8} {head : FlashAnsHead}
    (h : decode buf = some head) : ∃ rest, buf = head.cmd :: head.flashCommand :: rest := by
  match buf, h with
  | c :: f :: _ :: _ :: _, h =>
    obtain rfl := Option.some.inj h
    exact ⟨_, rfl⟩

section

variable {α : Type} {decode : List UInt8 → Option α} {size : ℕ} {head : α}
  (happend : ∀ bytes rest, size ≤ bytes.length → decode (bytes ++ rest) = decode bytes)
include happend

/-- The head in the send buffer is that of the packet sent from it. -/
theorem readHead_sent {f : Frame} {n : ℕ} (hsize : size ≤ (f.val.take n).length)
    (h : readHead decode f.val = .ok head) : decode (f.val.take n) = some head := by
  rw [← List.take_append_drop n f.val] at h
  exact (happend _ _ hsize).symm.trans (readHead_decodes decode _ head h)

/-- The head in the receive buffer is that of the reply, if the reply is long enough. -/
theorem readHead_received {f : Frame} {reply : List UInt8} (hlen : reply.length ≤ 64)
    (hsize : ¬ reply.length < size) (h : readHead decode (f.receive reply).val = .ok head) :
    decode reply = some head := by
  rw [f.receive_val hlen] at h
  exact (happend _ _ (not_lt.mp hsize)).symm.trans (readHead_decodes decode _ head h)

end

theorem DebugCommand.headSize_le (c : DebugCommand) : c.headSize ≤ 12 := by
  cases c <;> decide

/-- The packet begins with the code of its command. -/
theorem commandOf_front {f : Frame} {c : DebugCommand} {rest tail : List UInt8} {n : ℕ}
    (hf : f.val = (c.toByte :: rest) ++ tail) (hn : n ≠ 0) :
    commandOf (f.val.take n) = some c := by
  obtain ⟨m, rfl⟩ := Nat.exists_eq_succ_of_ne_zero hn
  rw [hf]
  simp [commandOf]

/-- A refused `memReadCmd` leaves the buffer alone. -/
theorem memCmd_refused {cmd : DebugCommand} {buf out : Frame} {a s n : ℕ}
    (h : MakeHead.memCmd cmd buf a s n = .ok (0, out)) : out = buf := by
  unfold MakeHead.memCmd at h
  split_ifs at h
  · exact (congrArg Prod.snd (Except.ok.inj h)).symm
  · exact (congrArg Prod.snd (Except.ok.inj h)).symm
  · obtain ⟨f, -, hend⟩ := bind_eq_ok.mp h
    exact absurd (congrArg Prod.fst (pure_eq_ok.mp hend)) (Nat.succ_ne_zero 7)

/-- A packet that is sent consists of the head of its command. -/
theorem CallPacket.make_front {p : CallPacket} {buf out : Frame} {n : ℕ}
    (h : p.make buf = .ok (n, out)) (hn : n ≠ 0) :
    n = p.command.headSize ∧ commandOf (out.val.take n) = some p.command := by
  have hstored {c : DebugCommand} {rest : List UInt8} {size : ℕ}
      (hmake : (do
        let f ← buf.store 0 (c.toByte :: rest)
        return (size, f)) = (Except.ok (n, out) : Except Fault (ℕ × Frame))) :
      n = size ∧ commandOf (out.val.take n) = some c := by
    obtain ⟨f, hstore, hend⟩ := bind_eq_ok.mp hmake
    obtain ⟨rfl, rfl⟩ := Prod.mk.inj (pure_eq_ok.mp hend)
    obtain ⟨tail, hf⟩ := Frame.store_front buf _ f hstore
    exact ⟨rfl, commandOf_front hf hn⟩
  have hzero {out' : Frame} (hmake : (Except.ok (0, out') : Except Fault (ℕ × Frame)) =
      .ok (n, out)) : False := hn (congrArg Prod.fst (Except.ok.inj hmake)).symm
  cases p with
  | memRead address accessSize elementCount =>
    replace h : MakeHead.memCmd .memoryRead buf address accessSize elementCount = .ok (n, out) := h
    unfold MakeHead.memCmd at h
    split_ifs at h
    · exact (hzero h).elim
    · exact (hzero h).elim
    · exact hstored h
  | regsRead regIndex regCount =>
    replace h : MakeHead.regsCmd .regsRead buf (regIndex % 65536) regCount = .ok (n, out) := h
    unfold MakeHead.regsCmd at h
    split_ifs at h
    · exact (hzero h).elim
    · exact hstored h
  | resetHaltResume command => exact hstored h
  | flashCmd command address blockSizeBytes => exact hstored h

theorem readBytes_length {buf bytes : List UInt8} {off n : ℕ}
    (h : readBytes buf off n = .ok bytes) : bytes.length = n := by
  unfold readBytes at h
  split_ifs at h with hfits
  obtain rfl := Except.ok.inj h
  rw [List.length_take, List.length_drop]
  omega

section

variable {packet reply : List UInt8}

theorem accepts_memoryRead_iff (hc : commandOf packet = some .memoryRead)
    {cmdHead ansHead : MemReadWriteHead} (hcmd : MemReadWriteHead.decode packet = some cmdHead)
    (hans : MemReadWriteHead.decode reply = some ansHead) :
    Accepts packet reply ↔
      TargetSTM32F1.headsAgree cmdHead ansHead ∧ ansHead.byteCount ≠ 0 := by
  simp [Accepts, hc, hcmd, hans]

theorem accepts_regsRead_iff (hc : commandOf packet = some .regsRead)
    {cmdHead ansHead : RegReadWriteHead} (hcmd : RegReadWriteHead.decode packet = some cmdHead)
    (hans : RegReadWriteHead.decode reply = some ansHead) :
    Accepts packet reply ↔ cmdHead.cmd = ansHead.cmd ∧ cmdHead.regIndex = ansHead.regIndex ∧
      ¬ cmdHead.regCount < ansHead.regCount := by
  simp [Accepts, hc, hcmd, hans]

theorem accepts_resetHalt_iff (hc : commandOf packet = some .resetHalt)
    {cmdHead ansHead : SubCmdHead} (hcmd : SubCmdHead.decode packet = some cmdHead)
    (hans : SubCmdHead.decode reply = some ansHead) :
    Accepts packet reply ↔ cmdHead.cmd = ansHead.cmd ∧ cmdHead.sub = ansHead.sub := by
  simp [Accepts, hc, hcmd, hans]

theorem accepts_flash_iff (hc : commandOf packet = some .flash)
    {cmdHead : FlashCmdHead} {ansHead : FlashAnsHead}
    (hcmd : FlashCmdHead.decode packet = some cmdHead)
    (hans : FlashAnsHead.decode reply = some ansHead) :
    Accepts packet reply ↔
      cmdHead.cmd = ansHead.cmd ∧ cmdHead.flashCommand = ansHead.flashCommand := by
  simp [Accepts, hc, hcmd, hans]

/-- A reply that is accepted repeats the echoed bytes of the packet. -/
theorem echoedBytes_of_accepts (h : Accepts packet reply) :
    echoedBytes reply = echoedBytes packet := by
  unfold Accepts at h
  split at h
  next hc =>
    obtain ⟨cmdHead, hcmd, ansHead, hans, ⟨hcode, haddress, halign⟩, -⟩ := h
    obtain ⟨n₀, n₁, rest, hpacket⟩ := MemReadWriteHead.eq_of_decode hcmd
    obtain ⟨m₀, m₁, tail, hreply⟩ := MemReadWriteHead.eq_of_decode hans
    refine echoedBytes_congr hc fun i hi => ?_
    rw [hpacket, hreply, ← hcode, ← haddress, ← halign]
    simp only [DebugCommand.echoed, List.mem_cons, List.not_mem_nil, or_false] at hi
    rcases hi with rfl | rfl | rfl | rfl | rfl | rfl <;> rfl
  next hc =>
    obtain ⟨cmdHead, hcmd, ansHead, hans, hcode, hindex, -⟩ := h
    obtain ⟨rest, hpacket⟩ := RegReadWriteHead.eq_of_decode hcmd
    obtain ⟨tail, hreply⟩ := RegReadWriteHead.eq_of_decode hans
    refine echoedBytes_congr hc fun i hi => ?_
    rw [hpacket, hreply, ← hcode, ← hindex]
    simp only [DebugCommand.echoed, List.mem_cons, List.not_mem_nil, or_false] at hi
    rcases hi with rfl | rfl | rfl <;> rfl
  next hc =>
    obtain ⟨cmdHead, hcmd, ansHead, hans, hcode, hsub⟩ := h
    obtain ⟨rest, hpacket⟩ := SubCmdHead.eq_of_decode hcmd
    obtain ⟨tail, hreply⟩ := SubCmdHead.eq_of_decode hans
    refine echoedBytes_congr hc fun i hi => ?_
    rw [hpacket, hreply, ← hcode, ← hsub]
    simp only [DebugCommand.echoed, List.mem_cons, List.not_mem_nil, or_false] at hi
    rcases hi with rfl | rfl <;> rfl
  next hc =>
    obtain ⟨cmdHead, hcmd, ansHead, hans, hcode, hsub⟩ := h
    obtain ⟨rest, hpacket⟩ := FlashCmdHead.eq_of_decode hcmd
    obtain ⟨tail, hreply⟩ := FlashAnsHead.eq_of_decode hans
    refine echoedBytes_congr hc fun i hi => ?_
    rw [hpacket, hreply, ← hcode, ← hsub]
    simp only [DebugCommand.echoed, List.mem_cons, List.not_mem_nil, or_false] at hi
    rcases hi with rfl | rfl <;> rfl
  next => exact h.elim

/-- Nothing is accepted when nothing came back. -/
theorem ne_nil_of_accepts (h : Accepts packet reply) : reply ≠ [] := by
  rintro rfl
  have hnil := echoedBytes_of_accepts h
  unfold Accepts at h
  split at h
  case h_5 => exact h
  all_goals
    obtain ⟨-, -, ansHead, hans, -⟩ := h
    cases hans

theorem decode_short (h : reply.length < 4) : RegReadWriteHead.decode reply = none ∧
    SubCmdHead.decode reply = none ∧ FlashAnsHead.decode reply = none := by
  match reply, h with
  | [], _ => exact ⟨rfl, rfl, rfl⟩
  | [_], _ => exact ⟨rfl, rfl, rfl⟩
  | [_, _], _ => exact ⟨rfl, rfl, rfl⟩
  | [_, _, _], _ => exact ⟨rfl, rfl, rfl⟩

end

/-- What a call does with its packet, up to the first look at the reply. -/
theorem sendAndReceive_sends {p : CallPacket} {h : Host σ} {n : ℕ} {out : Frame} {β : Type}
    {k : ℕ × Host σ → Except Fault β} {r : β} (hmake : p.make h.outBuf = .ok (n, out)) (hn : n ≠ 0)
    (hrun : TargetSTM32F1.sendAndReceive interface n ⟨out, h.inBuf, h.link⟩ >>= k = .ok r) :
    ∃ reply l, exchange interface (out.val.take n) h.link = (reply, l) ∧ reply.length ≤ 64 ∧
      p.command.headSize ≤ (out.val.take n).length ∧
      commandOf (out.val.take n) = some p.command ∧
      k (reply.length, ⟨out, h.inBuf.receive reply, l⟩) = .ok r := by
  obtain ⟨hsize, hc⟩ := CallPacket.make_front hmake hn
  have hhead := p.command.headSize_le
  have hlen : (out.val.take n).length = n := by
    have hbuf : out.val.length = 64 := out.property
    rw [List.length_take]
    omega
  have hsend := sendAndReceive_eq interface (out.val.take n) (h := ⟨out, h.inBuf, h.link⟩)
    (by rw [hlen])
  rw [hlen] at hsend
  rw [bind_of_ok hsend] at hrun
  exact ⟨_, _, rfl, exchange_length_le _ _ _, (hlen.trans hsize).ge, hc, hrun⟩

/-- A round of `memRead` stops before it sends, or it is one exchange and goes on if it accepts
the reply. -/
theorem memReadRound_exchanges {a s total offset n : ℕ} {data data' : List UInt8}
    {h h' : Host σ} (hround : TargetSTM32F1.memReadRound interface a s total offset (data, h) =
      .ok (n, data', h')) : n = 0 ∧ h' = h ∨ h.Exchanges interface h' (n ≠ 0) := by
  unfold TargetSTM32F1.memReadRound at hround
  simp only at hround
  obtain ⟨⟨size, out⟩, hmake, hround⟩ := bind_eq_ok.mp hround
  simp only at hround
  by_cases hzero : size = 0
  · subst hzero
    rw [if_pos rfl] at hround
    obtain ⟨rfl, -, rfl⟩ := pure_eq_ok.mp hround
    rw [memCmd_refused hmake]
    exact .inl ⟨rfl, rfl⟩
  rw [if_neg hzero] at hround
  obtain ⟨reply, l, hx, hlen, hsize, hc, hround⟩ :=
    sendAndReceive_sends (p := .memRead _ s _) hmake hzero hround
  suffices hend : h' = ⟨out, h.inBuf.receive reply, l⟩ ∧
      (n ≠ 0 ↔ Accepts (out.val.take size) reply) from
    .inr ⟨.memRead _ s _, size, out, reply, l, hmake, hzero, hx, hend⟩
  simp only at hround
  by_cases hshort : reply.length < MemReadWriteHead.size
  · rw [if_pos hshort] at hround
    obtain ⟨rfl, -, rfl⟩ := pure_eq_ok.mp hround
    have hnone : MemReadWriteHead.decode reply = none := Option.eq_none_iff_forall_ne_some.mpr
      fun ans hans => absurd (MemReadWriteHead.size_le_of_decode hans) (not_le.mpr hshort)
    exact ⟨rfl, by simp [Accepts, hc, CallPacket.command, hnone]⟩
  rw [if_neg hshort] at hround
  obtain ⟨cmdHead, hcmdHead, hround⟩ := bind_eq_ok.mp hround
  obtain ⟨ansHead, hansHead, hround⟩ := bind_eq_ok.mp hround
  rw [accepts_memoryRead_iff hc
    (readHead_sent (fun _ rest => MemReadWriteHead.decode_append rest) hsize hcmdHead)
    (readHead_received (fun _ rest => MemReadWriteHead.decode_append rest) hlen hshort hansHead)]
  by_cases hagree : TargetSTM32F1.headsAgree cmdHead ansHead
  · rw [if_neg (not_not.mpr hagree)] at hround
    by_cases hcount : ansHead.byteCount = 0
    · rw [if_pos hcount] at hround
      obtain ⟨rfl, -, rfl⟩ := pure_eq_ok.mp hround
      exact ⟨rfl, by simp [hcount]⟩
    · rw [if_neg hcount] at hround
      obtain ⟨bytes, -, hround⟩ := bind_eq_ok.mp hround
      obtain ⟨rfl, -, rfl⟩ := pure_eq_ok.mp hround
      exact ⟨rfl, by simp [hcount, hagree]⟩
  · rw [if_pos hagree] at hround
    obtain ⟨rfl, -, rfl⟩ := pure_eq_ok.mp hround
    exact ⟨rfl, by simp [hagree]⟩

/-- A round of `regsRead` with a register left is one exchange, and it goes on if it accepts the
reply. -/
theorem regsReadRound_exchanges {k total offset : ℕ} {n : Option ℕ} {regs regs' : List UInt32}
    {h h' : Host σ} (hleft : 4 ≤ total - offset)
    (hround : TargetSTM32F1.regsReadRound interface k total offset (regs, h) =
      .ok (n, regs', h')) : h.Exchanges interface h' (n.isSome = true) := by
  have hcount : ¬ (total - offset) / 4 = 0 := by omega
  unfold TargetSTM32F1.regsReadRound at hround
  simp only at hround
  obtain ⟨⟨size, out⟩, hmake, hround⟩ := bind_eq_ok.mp hround
  have hzero : size ≠ 0 := by
    unfold MakeHead.regsRead MakeHead.regsCmd at hmake
    rw [if_neg hcount] at hmake
    obtain ⟨f, -, hend⟩ := bind_eq_ok.mp hmake
    have hfour : 4 = size := congrArg Prod.fst (pure_eq_ok.mp hend)
    omega
  obtain ⟨reply, l, hx, hlen, hsize, hc, hround⟩ :=
    sendAndReceive_sends (p := .regsRead _ _) hmake hzero hround
  suffices hend : h' = ⟨out, h.inBuf.receive reply, l⟩ ∧
      (n.isSome = true ↔ Accepts (out.val.take size) reply) from
    ⟨.regsRead _ _, size, out, reply, l, hmake, hzero, hx, hend⟩
  simp only at hround
  by_cases hshort : reply.length < RegReadWriteHead.size
  · rw [if_pos hshort] at hround
    obtain ⟨rfl, -, rfl⟩ := pure_eq_ok.mp hround
    exact ⟨rfl, by simp [Accepts, hc, CallPacket.command, (decode_short hshort).1]⟩
  rw [if_neg hshort] at hround
  obtain ⟨cmdHead, hcmdHead, hround⟩ := bind_eq_ok.mp hround
  obtain ⟨ansHead, hansHead, hround⟩ := bind_eq_ok.mp hround
  rw [accepts_regsRead_iff hc
    (readHead_sent (fun _ rest => RegReadWriteHead.decode_append rest) hsize hcmdHead)
    (readHead_received (fun _ rest => RegReadWriteHead.decode_append rest) hlen hshort hansHead)]
  split_ifs at hround with hcode hindex hmore
  · obtain ⟨rfl, -, rfl⟩ := pure_eq_ok.mp hround
    exact ⟨rfl, by simp [hcode]⟩
  · obtain ⟨rfl, -, rfl⟩ := pure_eq_ok.mp hround
    exact ⟨rfl, by simp [hindex]⟩
  · obtain ⟨rfl, -, rfl⟩ := pure_eq_ok.mp hround
    exact ⟨rfl, by simp [hmore]⟩
  · obtain ⟨bytes, -, hround⟩ := bind_eq_ok.mp hround
    obtain ⟨rfl, -, rfl⟩ := pure_eq_ok.mp hround
    exact ⟨rfl, iff_of_true rfl ⟨not_not.mp hcode, not_not.mp hindex, hmore⟩⟩

/-- `resetHaltResume` is one exchange; it returns a state if it accepts the reply. -/
theorem resetHaltResume_exchanges {command : ResetHaltCommand} {state : Option UInt8}
    {h h' : Host σ}
    (hcall : TargetSTM32F1.resetHaltResume interface command h = .ok (state, h')) :
    h.Exchanges interface h' (state.isSome = true) := by
  unfold TargetSTM32F1.resetHaltResume at hcall
  obtain ⟨⟨size, out⟩, hmake, hcall⟩ := bind_eq_ok.mp hcall
  have hzero : size ≠ 0 := by
    obtain ⟨f, -, hend⟩ := bind_eq_ok.mp hmake
    have hfour : 4 = size := congrArg Prod.fst (pure_eq_ok.mp hend)
    omega
  obtain ⟨reply, l, hx, hlen, hsize, hc, hcall⟩ :=
    sendAndReceive_sends (p := .resetHaltResume command) hmake hzero hcall
  suffices hend : h' = ⟨out, h.inBuf.receive reply, l⟩ ∧
      (state.isSome = true ↔ Accepts (out.val.take size) reply) from
    ⟨.resetHaltResume command, size, out, reply, l, hmake, hzero, hx, hend⟩
  simp only at hcall
  by_cases hshort : reply.length < SubCmdHead.size
  · rw [if_pos hshort] at hcall
    obtain ⟨rfl, rfl⟩ := Prod.mk.inj (pure_eq_ok.mp hcall)
    exact ⟨rfl, by simp [Accepts, hc, CallPacket.command, (decode_short hshort).2.1]⟩
  rw [if_neg hshort] at hcall
  obtain ⟨cmdHead, hcmdHead, hcall⟩ := bind_eq_ok.mp hcall
  obtain ⟨ansHead, hansHead, hcall⟩ := bind_eq_ok.mp hcall
  rw [accepts_resetHalt_iff hc
    (readHead_sent (fun _ rest => SubCmdHead.decode_append rest) hsize hcmdHead)
    (readHead_received (fun _ rest => SubCmdHead.decode_append rest) hlen hshort hansHead)]
  split_ifs at hcall with hcode hsub
  · obtain ⟨rfl, rfl⟩ := Prod.mk.inj (pure_eq_ok.mp hcall)
    exact ⟨rfl, by simp [hcode]⟩
  · obtain ⟨rfl, rfl⟩ := Prod.mk.inj (pure_eq_ok.mp hcall)
    exact ⟨rfl, by simp [hsub]⟩
  · obtain ⟨bytes, hbytes, hcall⟩ := bind_eq_ok.mp hcall
    obtain ⟨rfl, rfl⟩ := Prod.mk.inj (pure_eq_ok.mp hcall)
    obtain ⟨b, rfl⟩ := List.length_eq_one_iff.mp (readBytes_length hbytes)
    exact ⟨rfl, by simp [not_not.mp hcode, not_not.mp hsub]⟩

/-- `flashCmd` is one exchange; what it returns is the status of a reply it accepts. -/
theorem flashCmd_exchanges {command : FlashCommand} {a s : ℕ} {done : Bool} {h h' : Host σ}
    (hcall : TargetSTM32F1.flashCmd interface command a s h = .ok (done, h')) :
    ∃ accepts, h.Exchanges interface h' accepts ∧ (done = true → accepts) := by
  unfold TargetSTM32F1.flashCmd at hcall
  obtain ⟨⟨size, out⟩, hmake, hcall⟩ := bind_eq_ok.mp hcall
  have hzero : size ≠ 0 := by
    obtain ⟨f, -, hend⟩ := bind_eq_ok.mp hmake
    have htwelve : 12 = size := congrArg Prod.fst (pure_eq_ok.mp hend)
    omega
  obtain ⟨reply, l, hx, hlen, hsize, hc, hcall⟩ :=
    sendAndReceive_sends (p := .flashCmd command a s) hmake hzero hcall
  suffices hend : h' = ⟨out, h.inBuf.receive reply, l⟩ ∧
      (done = true → Accepts (out.val.take size) reply) from
    ⟨_, ⟨.flashCmd command a s, size, out, reply, l, hmake, hzero, hx, hend.1, Iff.rfl⟩, hend.2⟩
  simp only at hcall
  by_cases hshort : reply.length < FlashAnsHead.size
  · rw [if_pos hshort] at hcall
    obtain ⟨rfl, rfl⟩ := Prod.mk.inj (pure_eq_ok.mp hcall)
    exact ⟨rfl, fun hdone => absurd hdone Bool.false_ne_true⟩
  rw [if_neg hshort] at hcall
  obtain ⟨cmdHead, hcmdHead, hcall⟩ := bind_eq_ok.mp hcall
  obtain ⟨ansHead, hansHead, hcall⟩ := bind_eq_ok.mp hcall
  rw [accepts_flash_iff hc
    (readHead_sent (fun _ rest => FlashCmdHead.decode_append rest) hsize hcmdHead)
    (readHead_received (fun _ rest => FlashAnsHead.decode_append rest) hlen hshort hansHead)]
  split_ifs at hcall with hcode hsub
  · obtain ⟨rfl, rfl⟩ := Prod.mk.inj (pure_eq_ok.mp hcall)
    exact ⟨rfl, fun hdone => absurd hdone Bool.false_ne_true⟩
  · obtain ⟨rfl, rfl⟩ := Prod.mk.inj (pure_eq_ok.mp hcall)
    exact ⟨rfl, fun hdone => absurd hdone Bool.false_ne_true⟩
  · obtain ⟨-, rfl⟩ := Prod.mk.inj (pure_eq_ok.mp hcall)
    exact ⟨rfl, fun _ => ⟨not_not.mp hcode, not_not.mp hsub⟩⟩

theorem Frame.take_packet (f : Frame) {n : ℕ} (hn : n ≠ 0) :
    f.val.take n ≠ [] ∧ (f.val.take n).length ≤ 64 := by
  have hbuf : f.val.length = 64 := f.property
  have hlen : (f.val.take n).length = min n 64 := by rw [List.length_take, hbuf]
  refine ⟨fun hnil => ?_, by omega⟩
  rw [hnil, List.length_nil] at hlen
  omega

/-- What every exchange keeps of the link, every run of calls keeps. -/
theorem Host.Calls.invariant {h h' : Host σ} {I : σ → Prop}
    (hstep : ∀ packet l, packet ≠ [] → packet.length ≤ 64 → I l →
      I (exchange interface packet l).2)
    (hcalls : h.Calls interface h') (hstart : I h.link) : I h'.link := by
  induction hcalls with
  | start => exact hstart
  | @next h₁ _ _ _ hx ih =>
    obtain ⟨p, n, out, reply, l, -, hn, hexchange, rfl, -⟩ := hx
    obtain ⟨hne, hlen⟩ := out.take_packet hn
    have hkept := hstep (out.val.take n) h₁.link hne hlen ih
    rwa [hexchange] at hkept

theorem regsReadRound_dvd (k total offset : ℕ) (s : List UInt32 × Host σ) :
    Ensures (TargetSTM32F1.regsReadRound interface k total offset s) fun r => 4 ∣ r.1.getD 0 := by
  unfold TargetSTM32F1.regsReadRound
  refine (Ensures.any _).bind fun made _ => ?_
  refine (Ensures.any _).bind fun received _ => ?_
  refine Ensures.ite (fun _ => .ok (dvd_zero 4)) fun _ => ?_
  refine (Ensures.any _).bind fun cmdHead _ => ?_
  refine (Ensures.any _).bind fun ansHead _ => ?_
  refine Ensures.ite (fun _ => .ok (dvd_zero 4)) fun _ => ?_
  refine Ensures.ite (fun _ => .ok (dvd_zero 4)) fun _ => ?_
  refine Ensures.ite (fun _ => .ok (dvd_zero 4)) fun _ => ?_
  exact (Ensures.any _).bind fun bytes _ => .ok (dvd_mul_left 4 _)

theorem Host.Calls.memReadRound {a s total offset n : ℕ} {data data' : List UInt8}
    {h h₁ h₂ : Host σ} (hcalls : h.Calls interface h₁)
    (hround : TargetSTM32F1.memReadRound interface a s total offset (data, h₁) =
      .ok (n, data', h₂)) : h.Calls interface h₂ := by
  rcases memReadRound_exchanges hround with ⟨-, rfl⟩ | hx
  · exact hcalls
  · exact hcalls.next hx

/-- A call that returns has made such a run. -/
theorem HostCall.run_calls {call : HostCall} {h₀ h h' : Host σ} (hbefore : h₀.Calls interface h)
    (hrun : call.run interface h = .ok h') : h₀.Calls interface h' := by
  cases call with
  | memRead a s n =>
    obtain ⟨⟨data, h₁⟩, hcall, hend⟩ := bind_eq_ok.mp hrun
    obtain rfl : h₁ = h' := pure_eq_ok.mp hend
    unfold TargetSTM32F1.memRead at hcall
    split_ifs at hcall
    · obtain ⟨-, rfl⟩ := Prod.mk.inj (Except.ok.inj hcall)
      exact hbefore
    · obtain ⟨⟨last, t⟩, hloop, hend⟩ := bind_eq_ok.mp hcall
      obtain rfl : t = (data, h₁) := pure_eq_ok.mp hend
      exact transfer_invariant (fun _ (t : List UInt8 × Host σ) => h₀.Calls interface t.2)
        (fun offset t m t' _ ht hround => ht.memReadRound hround) hbefore hloop
  | regsRead fuel k n =>
    obtain ⟨⟨regs, h₁⟩, hcall, hend⟩ := bind_eq_ok.mp hrun
    obtain rfl : h₁ = h' := pure_eq_ok.mp hend
    unfold TargetSTM32F1.regsRead at hcall
    split_ifs at hcall
    · obtain ⟨-, rfl⟩ := Prod.mk.inj (Except.ok.inj hcall)
      exact hbefore
    · obtain ⟨⟨last, t⟩, hloop, hend⟩ := bind_eq_ok.mp hcall
      obtain ⟨-, hlast⟩ := Prod.mk.inj (pure_eq_ok.mp hend)
      have hinv := rounds_invariant
        (fun offset (t : List UInt32 × Host σ) => 4 ∣ offset ∧ h₀.Calls interface t.2)
        (fun offset t m t' hlt ht hround => ⟨?_, ?_⟩) ⟨dvd_zero 4, hbefore⟩ hloop
      · rw [← hlast]
        exact hinv.2
      · exact dvd_add ht.1 (regsReadRound_dvd _ _ _ _ _ hround)
      · obtain ⟨o, rfl⟩ := ht.1
        exact ht.2.next (regsReadRound_exchanges (by omega) hround)
  | resetHaltResume command =>
    obtain ⟨⟨state, h₁⟩, hcall, hend⟩ := bind_eq_ok.mp hrun
    obtain rfl : h₁ = h' := pure_eq_ok.mp hend
    exact hbefore.next (resetHaltResume_exchanges hcall)
  | flashCmd command a s =>
    obtain ⟨⟨done, h₁⟩, hcall, hend⟩ := bind_eq_ok.mp hrun
    obtain rfl : h₁ = h' := pure_eq_ok.mp hend
    obtain ⟨accepts, hx, -⟩ := flashCmd_exchanges hcall
    exact hbefore.next hx

/-- Calls that return, one after the other. -/
theorem calls_of_foldlM {calls : List HostCall} {h₀ h h' : Host σ}
    (hbefore : h₀.Calls interface h)
    (hrun : calls.foldlM (HostCall.run interface) h = .ok h') : h₀.Calls interface h' := by
  induction calls generalizing h with
  | nil =>
    obtain rfl : h = h' := pure_eq_ok.mp hrun
    exact hbefore
  | cons call calls ih =>
    rw [List.foldlM_cons] at hrun
    obtain ⟨h₁, hcall, hrest⟩ := bind_eq_ok.mp hrun
    exact ih (call.run_calls hbefore hcall) hrest

end BluePill
