import BluePill.Host.GdbMain
import BluePill.Host.MemorySplit
import BluePill.Host.RegisterReplies

/-! The exchanges of a call over any link: short writes, failed reads and replies of any content.
A log beside the link keeps what was sent and what came back. -/
namespace BluePill
open Lib

/-- A packet and its reply, which is empty when the packet was not sent whole or the read
failed. -/
structure Exchange where
  packet : List UInt8
  reply : List UInt8

variable {σ : Type}

/-- The reply to one packet, as far as it goes into the receive buffer. -/
def exchange (interface : TargetInterface σ) (packet : List UInt8) (l : σ) : List UInt8 × σ :=
  let (txSize, l) := interface.writePacket packet l
  if txSize ≠ packet.length then ([], l)
  else
    let (reply, l) := interface.readPacket 64 l
    (reply.take 64, l)

/-- The interface with a log of its exchanges. -/
def logged (interface : TargetInterface σ) : TargetInterface (σ × List Exchange) where
  writePacket packet s :=
    let (txSize, l) := interface.writePacket packet s.1
    (txSize, l, s.2 ++ [⟨packet, []⟩])
  readPacket size s :=
    let (reply, l) := interface.readPacket size s.1
    (reply, l, s.2.dropLast ++ (s.2.getLast?.map fun e => { e with reply := reply.take size }).toList)

/-- A link on which nothing gets through. -/
def deadLink : TargetInterface Unit where
  writePacket _ s := (0, s)
  readPacket _ s := ([], s)

/-- A link whose device answers every packet with its first eight bytes. -/
def echoLink : TargetInterface (List UInt8) where
  writePacket packet _ := (packet.length, packet.take 8)
  readPacket _ s := (s, [])

theorem exchange_echo (packet l : List UInt8) :
    exchange echoLink packet l = (packet.take 8, []) := by
  unfold exchange echoLink
  simp only [ne_eq, not_true_eq_false, if_false, List.take_take]
  rfl

/-- The host at the start of a request: nothing has been exchanged. -/
def Host.unlogged (h : Host σ) : Host (σ × List Exchange) := ⟨h.outBuf, h.inBuf, h.link, []⟩

variable {interface : TargetInterface σ}

variable (interface) in
theorem exchange_length_le (packet : List UInt8) (l : σ) :
    (exchange interface packet l).1.length ≤ 64 := by
  unfold exchange
  simp only
  split_ifs
  · exact Nat.zero_le _
  · rw [List.length_take]
    exact Nat.min_le_left _ _

variable (interface) in
theorem exchange_logged (packet : List UInt8) (l : σ) (log : List Exchange) :
    exchange (logged interface) packet (l, log) =
      ((exchange interface packet l).1, (exchange interface packet l).2,
        log ++ [⟨packet, (exchange interface packet l).1⟩]) := by
  unfold exchange logged
  simp only
  split_ifs
  · rfl
  · simp

theorem Frame.receive_nil (f : Frame) : f.receive [] = f := Subtype.ext rfl

variable (interface) in
/-- A packet that does not get through is like an empty reply. -/
theorem sendAndReceive_eq (packet : List UInt8) {h : Host σ}
    (htake : h.outBuf.val.take packet.length = packet) :
    TargetSTM32F1.sendAndReceive interface packet.length h =
      .ok ((exchange interface packet h.link).1.length,
        ⟨h.outBuf, h.inBuf.receive (exchange interface packet h.link).1,
          (exchange interface packet h.link).2⟩) := by
  have hbuf : h.outBuf.val.length = 64 := h.outBuf.property
  have hfits : packet.length ≤ 64 := by
    have hlen := congrArg List.length htake
    rw [List.length_take, hbuf] at hlen
    omega
  have hread : readBytes h.outBuf.val 0 packet.length = .ok packet := by
    unfold readBytes
    rw [if_pos (by omega), List.drop_zero, htake]
  unfold TargetSTM32F1.sendAndReceive exchange
  rw [bind_of_ok hread]
  simp only
  split_ifs with hshort
  · rw [Frame.receive_nil]
    rfl
  · have htwice (reply : List UInt8) : h.inBuf.receive (reply.take 64) = h.inBuf.receive reply :=
      Subtype.ext (by simp only [Frame.receive, List.take_take, min_self])
    rw [htwice]
    rfl

/-- An exchange with a device that answers. -/
theorem exchange_answers {h : Host Link} {d e : Device} {S R : List (List UInt8)}
    (hat : h.link.At d S R) (packet : List UInt8) (hlen : packet.length ≤ 64)
    {Q : List UInt8 → Prop} (hanswers : d.Answers packet Q e)
    (hreply : ∀ reply, Q reply → reply.length ≤ 64) :
    ∃ S' R', (exchange firmwareLink packet h.link).2.At e S' R' := by
  have htake : (h.outBuf.receive packet).val.take packet.length = packet := by
    rw [h.outBuf.receive_val hlen, List.take_left' rfl]
  have hat' : ({ h with outBuf := h.outBuf.receive packet } : Host Link).link.At d S R := hat
  obtain ⟨reply, l, hsend, -, hl⟩ :=
    sendAndReceive_answers hat' packet.length htake rfl hanswers hreply
  have hrun := sendAndReceive_eq firmwareLink packet
    (h := { h with outBuf := h.outBuf.receive packet }) htake
  obtain ⟨-, hhost⟩ := Prod.mk.inj (Except.ok.inj (hrun.symm.trans hsend))
  have hlink : (exchange firmwareLink packet h.link).2 = l := congrArg Host.link hhost
  exact ⟨_, _, hlink ▸ hl⟩

/-- The byte count of a reply that echoes the command; zero when it does not, or has no head. -/
def announced (head : MemReadWriteHead) (reply : List UInt8) : ℕ :=
  match MemReadWriteHead.decode reply with
  | some ans => if TargetSTM32F1.headsAgree head ans then ans.byteCount else 0
  | none => 0

theorem MemReadWriteHead.decode_isSome {bytes : List UInt8}
    (h : MemReadWriteHead.size ≤ bytes.length) :
    ∃ head, MemReadWriteHead.decode bytes = some head := by
  match bytes, h with
  | _ :: _ :: _ :: _ :: _ :: _ :: _ :: _ :: _, _ => exact ⟨_, rfl⟩

theorem MemReadWriteHead.size_le_of_decode {bytes : List UInt8} {head : MemReadWriteHead}
    (h : MemReadWriteHead.decode bytes = some head) : MemReadWriteHead.size ≤ bytes.length := by
  match bytes, h with
  | _ :: _ :: _ :: _ :: _ :: _ :: _ :: _ :: rest, _ =>
    simp only [List.length_cons, MemReadWriteHead.size]
    omega

theorem MemReadWriteHead.byteCount_lt {bytes : List UInt8} {head : MemReadWriteHead}
    (h : MemReadWriteHead.decode bytes = some head) : head.byteCount < 65536 := by
  match bytes, h with
  | _ :: _ :: n₀ :: n₁ :: _ :: _ :: _ :: _ :: _, h =>
    obtain rfl := Option.some.inj h
    have hlt : ofLE [n₀, n₁] < 256 ^ 2 := ofLE_lt [n₀, n₁]
    norm_num at hlt
    exact hlt

theorem announced_lt (head : MemReadWriteHead) (reply : List UInt8) :
    announced head reply < 65536 := by
  unfold announced
  cases hdecode : MemReadWriteHead.decode reply with
  | none => exact Nat.succ_pos _
  | some ans =>
    simp only
    split_ifs
    · exact MemReadWriteHead.byteCount_lt hdecode
    · exact Nat.succ_pos _

theorem announced_of_short {head : MemReadWriteHead} {reply : List UInt8}
    (h : ¬ MemReadWriteHead.size ≤ reply.length) : announced head reply = 0 := by
  unfold announced
  cases hdecode : MemReadWriteHead.decode reply with
  | none => rfl
  | some ans => exact absurd (MemReadWriteHead.size_le_of_decode hdecode) h

/-- The head of a reply that is long enough is read from the reply alone. -/
theorem readHead_receive (f : Frame) {reply : List UInt8} (hlen : reply.length ≤ 64)
    (hsize : MemReadWriteHead.size ≤ reply.length) :
    ∃ ans, readHead MemReadWriteHead.decode (f.receive reply).val = .ok ans ∧
      MemReadWriteHead.decode reply = some ans := by
  obtain ⟨ans, hans⟩ := MemReadWriteHead.decode_isSome hsize
  refine ⟨ans, ?_, hans⟩
  rw [f.receive_val hlen, readHead, MemReadWriteHead.decode_append _ hsize, hans]

/-- The element size of `stm32_mem_read` and `stm32_mem_write`. -/
def accessSizeFor (addr len : ℕ) : ℕ :=
  if accSizeOf addr < accSizeOf len then accSizeOf addr else accSizeOf len

/-- What one packet carries of a remainder, in whole elements. -/
def packetBytes (accessSize remain : ℕ) : ℕ := min 56 (remain / accessSize * accessSize)

/-- The head of the next packet of a transfer. -/
def packetHead (cmd : DebugCommand) (a accessSize total offset : ℕ) : MemReadWriteHead :=
  ⟨cmd.toByte, UInt8.ofNat accessSize, packetBytes accessSize (total - offset),
    (a + offset) % 4294967296⟩

theorem packetHead_byteCount_le (cmd : DebugCommand) (a accessSize total offset : ℕ) :
    (packetHead cmd a accessSize total offset).byteCount ≤ 56 := Nat.min_le_left _ _

theorem packetHead_decode (cmd : DebugCommand) (a accessSize total offset : ℕ) (rest : List UInt8) :
    MemReadWriteHead.decode ((packetHead cmd a accessSize total offset).encode ++ rest) =
      some (packetHead cmd a accessSize total offset) := by
  have hle := packetHead_byteCount_le cmd a accessSize total offset
  exact MemReadWriteHead.decode_encode _ rest (by omega) (Nat.mod_lt _ (by decide))

section
variable {h : Host σ} {a total offset : ℕ} {w : AccessWidth}

theorem memReadRound_stops (data : List UInt8) (hshort : total - offset < w.bytes) :
    TargetSTM32F1.memReadRound interface a w.bytes total offset (data, h) = .ok (0, data, h) := by
  have hzero : (total - offset) / w.bytes = 0 := Nat.div_eq_of_lt hshort
  unfold TargetSTM32F1.memReadRound
  simp only [hzero]
  rfl

/-- A round of `memRead` over any link. -/
theorem memReadRound_eq (data : List UInt8) (hle : w.bytes ≤ total - offset)
    (hsmall : total < 4294967296) {head : MemReadWriteHead}
    (hhead : head = packetHead .memoryRead a w.bytes total offset)
    {reply : List UInt8} {l : σ} (hreply : exchange interface head.encode h.link = (reply, l)) :
    ∃ g, TargetSTM32F1.memReadRound interface a w.bytes total offset (data, h) =
      if announced head reply = 0 then .ok (0, data, ⟨g, h.inBuf.receive reply, l⟩)
      else do
        let bytes ← readBytes (h.inBuf.receive reply).val 8
          (min (announced head reply) (total - offset))
        return (announced head reply, data ++ bytes, ⟨g, h.inBuf.receive reply, l⟩) := by
  have hpos := w.bytes_pos
  have hwhole : (total - offset) / w.bytes * w.bytes ≤ total - offset := Nat.div_mul_le_self _ _
  have hsome : 0 < (total - offset) / w.bytes * w.bytes :=
    Nat.mul_pos (Nat.div_pos hle hpos) hpos
  have hlen : head.encode.length = 8 := MemReadWriteHead.encode_length _
  have hreplyLen : reply.length ≤ 64 := by
    have hle' := exchange_length_le interface head.encode h.link
    rwa [hreply] at hle'
  obtain ⟨g, hg, htake⟩ := memCmd_ok .memoryRead h.outBuf (a := (a + offset) % 4294967296) hsome
    (Dvd.intro_left _ rfl) (by omega)
  rw [Nat.mul_div_cancel _ hpos] at hg
  have htake' : g.val.take 8 = head.encode := by rw [hhead]; exact htake
  have hcmdHead : readHead MemReadWriteHead.decode g.val = .ok head := by
    apply readHead_of_take htake'
    · rw [hhead]
      show min 56 _ < 65536
      omega
    · rw [hhead]
      exact Nat.mod_lt _ (by decide)
  have hsend := sendAndReceive_eq interface head.encode (h := { h with outBuf := g })
    (by rw [hlen]; exact htake')
  simp only [hreply, hlen] at hsend
  refine ⟨g, ?_⟩
  unfold TargetSTM32F1.memReadRound
  simp only
  rw [bind_of_ok (show MakeHead.memReadCmd h.outBuf _ w.bytes _ = .ok (8, g) from hg)]
  simp only [Nat.reduceEqDiff, if_false]
  rw [bind_of_ok hsend]
  simp only
  by_cases hsize : reply.length < MemReadWriteHead.size
  · have hnone : announced head reply = 0 := announced_of_short (not_le.mpr hsize)
    rw [if_pos hsize, if_pos hnone]
    rfl
  · obtain ⟨ans, hansHead, hdecode⟩ := readHead_receive h.inBuf hreplyLen (not_lt.mp hsize)
    rw [if_neg hsize, bind_of_ok hcmdHead, bind_of_ok hansHead]
    simp only [announced, hdecode]
    by_cases hagree : TargetSTM32F1.headsAgree head ans
    · simp only [hagree, not_true_eq_false, if_false, if_true]
      by_cases hzero : ans.byteCount = 0
      · rw [if_pos hzero, if_pos hzero]
        rfl
      · have hmin : (if ans.byteCount < total - offset then ans.byteCount else total - offset) =
            min ans.byteCount (total - offset) := by
          split_ifs <;> omega
        rw [if_neg hzero, if_neg hzero, hmin]
    · simp only [hagree, not_false_eq_true, if_true, if_false]
      rfl

end

/-- The packet that writes one register. -/
def registerPacket (i : ℕ) (v : UInt32) : List UInt8 :=
  (regHeadFor .regsWrite i 1).encode ++ toLE 4 v.toNat

variable (interface) in
/-- `regsWrite` of one word is one exchange, whatever comes back. -/
theorem regsWrite_one {h : Host σ} {i : ℕ} (hi : i < 256) (v : UInt32) :
    ∃ n g, TargetSTM32F1.regsWrite interface i [v] h =
      .ok (n, ⟨g, h.inBuf.receive (exchange interface (registerPacket i v) h.link).1,
        (exchange interface (registerPacket i v) h.link).2⟩) := by
  set head := regHeadFor .regsWrite i 1 with hheadDef
  have hhead : head.encode.length = 4 := RegReadWriteHead.encode_length _
  have hword : (toLE 4 v.toNat).length = 4 := toLE_length _ _
  have hcount : head.regCount.toNat = 1 := rfl
  obtain ⟨g, hg, htake⟩ := regsCmd_ok .regsWrite h.outBuf i (n := 1) (by decide) (by decide)
  have htake' : g.val.take 4 = head.encode := htake
  have hcmdHead : readHead RegReadWriteHead.decode g.val = .ok head :=
    readHead_reg_of_take htake (show i < 65536 by omega)
  have hread : readBytes ([v].flatMap fun v => toLE 4 v.toNat) 0 (1 * 4) =
      .ok (toLE 4 v.toNat) := by
    simp [readBytes]
  obtain ⟨f, hf, hfval⟩ := g.store_ok 4 (toLE 4 v.toNat) (by omega)
  have hsize : (registerPacket i v).length = 8 := by
    rw [registerPacket, List.length_append, hhead, hword]
  have hftake : f.val.take (registerPacket i v).length = registerPacket i v := by
    rw [hfval, htake', List.take_left' (by rw [registerPacket])]
    rfl
  have hsend := sendAndReceive_eq interface (registerPacket i v) (h := { h with outBuf := f })
    hftake
  simp only [hsize] at hsend
  set reply := (exchange interface (registerPacket i v) h.link).1 with hreply
  set h' : Host σ :=
    ⟨f, h.inBuf.receive reply, (exchange interface (registerPacket i v) h.link).2⟩ with hh'
  have hround : ∃ n, TargetSTM32F1.regsWriteRound interface i [v] 0 h = .ok (n, h') ∧
      (n = 0 ∨ n = 4) := by
    obtain ⟨ans, hansHead⟩ : ∃ ans, readHead RegReadWriteHead.decode h'.inBuf.val = .ok ans := by
      match hbytes : h'.inBuf.val, h'.inBuf.property with
      | _ :: _ :: _ :: _ :: _, _ => exact ⟨_, rfl⟩
    unfold TargetSTM32F1.regsWriteRound
    rw [bind_of_ok (show MakeHead.regsWrite h.outBuf (0 / 4 + i) [v] = .ok (4, g) by
      rw [MakeHead.regsWrite, show (0 / 4 + i) % 256 = i by omega]
      exact hg)]
    simp only
    rw [bind_of_ok hcmdHead]
    simp only [hcount]
    rw [bind_of_ok hread, bind_of_ok hf, bind_of_ok hsend]
    simp only
    by_cases hrx : reply.length < RegReadWriteHead.size
    · exact ⟨0, if_pos hrx, .inl rfl⟩
    · rw [if_neg hrx, bind_of_ok hansHead]
      have hone : ans.regCount ≠ 0 → ¬ head.regCount < ans.regCount →
          ans.regCount.toNat * 4 = 4 := by
        intro hne hle
        have hnat : ¬ head.regCount.toNat < ans.regCount.toNat := hle
        have hpos : ans.regCount.toNat ≠ 0 := fun hz => hne (UInt8.toNat_inj.mp hz)
        omega
      split_ifs with hcmd hindex hzero hmore
      · exact ⟨0, rfl, .inl rfl⟩
      · exact ⟨0, rfl, .inl rfl⟩
      · exact ⟨0, rfl, .inl rfl⟩
      · exact ⟨0, rfl, .inl rfl⟩
      · exact ⟨_, rfl, .inr (hone hzero hmore)⟩
  obtain ⟨n, hround, hn⟩ := hround
  have hlt : 0 < 4 * [v].length := by simp
  unfold TargetSTM32F1.regsWrite
  rw [if_neg (by simp)]
  rcases hn with rfl | rfl
  · exact ⟨_, f, bind_of_ok (transfer_stop hlt hround)⟩
  · exact ⟨_, f, bind_of_ok ((transfer_round hlt hround (by decide)).trans
      (transfer_done _ _ le_rfl))⟩

end BluePill
