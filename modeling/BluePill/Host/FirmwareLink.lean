import BluePill.Lib.Tiling
import BluePill.Firmware.MemoryPackets
import BluePill.Host.TargetSTM32F1

/-! The host calls against the firmware: every packet is handled by `usbDataOutCallback` before
the host asks for the reply. -/
namespace BluePill
open Lib

/-- The device at the other end, none once its callback has not returned, and the packets that
have crossed the cable. -/
structure Link where
  device : Option Device
  sent : List (List UInt8)
  received : List (List UInt8)

/-- The callback handles the packet; a reply waits in the IN endpoint until it is read. -/
def firmwareLink : TargetInterface Link where
  writePacket packet l :=
    match l.device with
    | none => (0, l)
    | some d =>
      match usbDataOutCallback packet d with
      | .ok e => (packet.length, ⟨some e, l.sent ++ [packet], l.received⟩)
      | .error _ => (packet.length, ⟨none, l.sent ++ [packet], l.received⟩)
  readPacket size l :=
    match l.device with
    | none => ([], l)
    | some d =>
      match d.inEndpoint with
      | none => ([], l)
      | some reply =>
        (reply.take size, ⟨some { d with inEndpoint := none }, l.sent, l.received ++ [reply]⟩)

/-- The device behind the link is `d` up to its USB buffers, with every reply collected, after
the packets `sent` and the replies `received`. -/
structure Link.At (l : Link) (d : Device) (sent received : List (List UInt8)) : Prop where
  device : ∃ e, l.device = some e ∧ e.inEndpoint = none ∧ e.target = d.target
  sent : l.sent = sent
  received : l.received = received

variable {h : Host Link} {d e : Device} {S R : List (List UInt8)}

/-- An exchange with a device that answers. -/
theorem sendAndReceive_answers (hat : h.link.At d S R) {packet : List UInt8} (n : ℕ)
    {Q : List UInt8 → Prop} (hpacket : h.outBuf.val.take n = packet) (hn : packet.length = n)
    (hanswers : d.Answers packet Q e) (hlen : ∀ reply, Q reply → reply.length ≤ 64) :
    ∃ reply l, TargetSTM32F1.sendAndReceive firmwareLink n h =
        .ok (reply.length, ⟨h.outBuf, h.inBuf.receive reply, l⟩) ∧ Q reply ∧
      l.At e (S ++ [packet]) (R ++ [reply]) := by
  obtain ⟨d₀, hdev, hfree, htarget⟩ := hat.device
  obtain ⟨e₀, reply, hcall, hendpoint, hreply, he⟩ := hanswers d₀ htarget hfree
  have hread : readBytes h.outBuf.val 0 n = .ok packet := by
    have hbuf : h.outBuf.val.length = 64 := h.outBuf.property
    have htake : packet.length ≤ 64 := by
      rw [← hpacket, List.length_take, hbuf]
      exact Nat.min_le_right _ _
    unfold readBytes
    rw [if_pos (by omega), List.drop_zero, hpacket]
  have hwrite : firmwareLink.writePacket packet h.link =
      (n, ⟨some e₀, h.link.sent ++ [packet], h.link.received⟩) := by
    simp only [firmwareLink, hdev, hcall, hn]
  have hreceive : firmwareLink.readPacket 64 ⟨some e₀, h.link.sent ++ [packet], h.link.received⟩ =
      (reply, ⟨some { e₀ with inEndpoint := none }, h.link.sent ++ [packet],
        h.link.received ++ [reply]⟩) := by
    simp only [firmwareLink, hendpoint, List.take_of_length_le (hlen reply hreply)]
  refine ⟨reply, ⟨some { e₀ with inEndpoint := none }, h.link.sent ++ [packet],
    h.link.received ++ [reply]⟩, ?_, hreply, ?_⟩
  · unfold TargetSTM32F1.sendAndReceive
    rw [bind_of_ok hread]
    simp only [hwrite, hreceive, ne_eq, not_true_eq_false, if_false,
      List.take_of_length_le (hlen reply hreply)]
    rfl
  · constructor
    · exact ⟨{ e₀ with inEndpoint := none }, rfl, rfl, he⟩
    · show h.link.sent ++ [packet] = _
      rw [hat.sent]
    · show h.link.received ++ [reply] = _
      rw [hat.received]

/-- After an exchange no reply waits in the IN endpoint. -/
theorem sendAndReceive_collects {n k : ℕ} {h' : Host Link}
    (hsend : TargetSTM32F1.sendAndReceive firmwareLink n h = .ok (k, h'))
    (hdev : h'.link.device = some d) (hn : n ≠ 0) : d.inEndpoint = none := by
  unfold TargetSTM32F1.sendAndReceive at hsend
  obtain ⟨packet, hread, hrest⟩ := bind_eq_ok.mp hsend
  have hlen : packet.length = n := by
    unfold readBytes at hread
    split_ifs at hread with hfits
    obtain rfl := Except.ok.inj hread
    rw [List.length_take, List.length_drop]
    omega
  cases hd₀ : h.link.device with
  | none =>
    simp only [firmwareLink, hd₀, ne_eq, hn.symm, not_false_eq_true, if_true, pure_eq_ok,
      Prod.mk.injEq] at hrest
    rw [← hrest.2] at hdev
    simp [hd₀] at hdev
  | some d₀ =>
    cases hcall : usbDataOutCallback packet d₀ with
    | error fault =>
      simp only [firmwareLink, hd₀, hcall, hlen, ne_eq, not_true_eq_false, if_false, pure_eq_ok,
        Prod.mk.injEq] at hrest
      rw [← hrest.2] at hdev
      simp at hdev
    | ok e =>
      cases hreply : e.inEndpoint with
      | none =>
        simp only [firmwareLink, hd₀, hcall, hlen, hreply, ne_eq, not_true_eq_false, if_false,
          pure_eq_ok, Prod.mk.injEq] at hrest
        rw [← hrest.2] at hdev
        obtain rfl := Option.some.inj hdev
        exact hreply
      | some reply =>
        simp only [firmwareLink, hd₀, hcall, hlen, hreply, ne_eq, not_true_eq_false, if_false,
          pure_eq_ok, Prod.mk.injEq] at hrest
        rw [← hrest.2] at hdev
        obtain rfl := Option.some.inj hdev
        rfl

theorem accessBitMask_eq (n : ℕ) : MakeHead.accessBitMask n = alignMask n := rfl

theorem pred_and_bytes (w : AccessWidth) : (w.bytes - 1) &&& w.bytes = 0 := by
  cases w <;> rfl

theorem bytes_dvd_payload (w : AccessWidth) : w.bytes ∣ 56 := by
  cases w
  · exact Nat.one_dvd 56
  · exact ⟨28, rfl⟩
  · exact ⟨14, rfl⟩

/-- Of a remainder of whole elements each packet takes what fits into 56 bytes. -/
theorem memCmd_ok (cmd : DebugCommand) (buf : Frame) {a n : ℕ} {w : AccessWidth} (hn : 0 < n)
    (hdvd : w.bytes ∣ n) (hwrap : n < 4294967296) :
    ∃ g : Frame, MakeHead.memCmd cmd buf a w.bytes (n / w.bytes) = .ok (8, g) ∧
      g.val.take 8 =
        (MemReadWriteHead.mk cmd.toByte (UInt8.ofNat w.bytes) (min 56 n) a).encode := by
  have hpos := w.bytes_pos
  have helements : n / w.bytes * w.bytes = n := Nat.div_mul_cancel hdvd
  have hcount : ¬ (n / w.bytes = 0 ∨ w.bytes = 0) := by
    rintro (hzero | hzero)
    · rw [hzero, Nat.zero_mul] at helements
      omega
    · omega
  have hmod : n / w.bytes * w.bytes % 4294967296 = n := by rw [helements, Nat.mod_eq_of_lt hwrap]
  have hmin : (if 64 - MemReadWriteHead.size < n then 64 - MemReadWriteHead.size else n) =
      min 56 n := by
    show (if 56 < n then 56 else n) = min 56 n
    split_ifs <;> omega
  have hround : min 56 n &&& MakeHead.accessBitMask w.bytes = min 56 n := by
    have hmindvd : w.bytes ∣ min 56 n := by
      rcases min_choice 56 n with h | h
      · rw [h]
        exact bytes_dvd_payload w
      · rw [h]
        exact hdvd
    rw [accessBitMask_eq, and_alignMask w (by omega), Nat.div_mul_cancel hmindvd]
  set head := MemReadWriteHead.mk cmd.toByte (UInt8.ofNat w.bytes) (min 56 n) a
  have hhead : head.encode.length = 8 := MemReadWriteHead.encode_length _
  obtain ⟨g, hg, hval⟩ := store_zero_ok buf head.encode (by rw [hhead]; decide)
  refine ⟨g, ?_, by rw [hval, List.take_left' hhead]⟩
  unfold MakeHead.memCmd
  rw [if_neg hcount, if_neg (by rw [pred_and_bytes]; decide)]
  simp only [hmod, hmin, hround]
  rw [bind_of_ok (show buf.store 0 _ = .ok g from hg)]
  rfl

theorem readHead_of_take {f : Frame} {head : MemReadWriteHead} (htake : f.val.take 8 = head.encode)
    (hn : head.byteCount < 65536) (ha : head.address < 4294967296) :
    readHead MemReadWriteHead.decode f.val = .ok head := by
  rw [← List.take_append_drop 8 f.val, htake]
  exact readHead_encode head _ hn ha

theorem dvd_min_payload {w : AccessWidth} {n : ℕ} (hdvd : w.bytes ∣ n) : w.bytes ∣ min 56 n := by
  rcases min_choice 56 n with h | h
  · rw [h]
    exact bytes_dvd_payload w
  · rw [h]
    exact hdvd

theorem headsAgree_refl (head : MemReadWriteHead) : TargetSTM32F1.headsAgree head head :=
  ⟨rfl, rfl, rfl⟩

/-- The command of one round, for a range. -/
def readCommand (w : AccessWidth) (c : ℕ × ℕ) : List UInt8 := (readHeadFor c.1 w c.2).encode

def readReply (mem : ℕ → UInt8) (w : AccessWidth) (c : ℕ × ℕ) : List UInt8 :=
  (readHeadFor c.1 w c.2).encode ++ answeredBytes mem c.1 c.2

/-- The device after it has answered the ranges `cs`. -/
def Device.readAll (d : Device) (w : AccessWidth) (cs : List (ℕ × ℕ)) : Device :=
  { d with accesses := d.accesses ++ cs.flatMap fun c => answerAccesses c.1 w c.2 }

@[simp] theorem Device.readAll_nil (d : Device) (w : AccessWidth) : d.readAll w [] = d := by
  simp [Device.readAll]

theorem Device.readAll_snoc (d : Device) (w : AccessWidth) (cs : List (ℕ × ℕ)) (c : ℕ × ℕ) :
    d.readAll w (cs ++ [c]) = { d.readAll w cs with
      accesses := (d.readAll w cs).accesses ++ answerAccesses c.1 w c.2 } := by
  simp [Device.readAll]

/-- A round of `memRead` takes the next packet's worth of the range. -/
theorem memReadRound_answers (hat : h.link.At d S R) {a total offset : ℕ} {w : AccessWidth}
    (data : List UInt8) (hlt : offset < total) (hdvd : w.bytes ∣ total - offset)
    (hwrap : a + total < 4294967296) :
    ∃ h', TargetSTM32F1.memReadRound firmwareLink a w.bytes total offset (data, h) =
        .ok (min 56 (total - offset),
          data ++ answeredBytes d.mem (a + offset) (min 56 (total - offset)), h') ∧
      h'.link.At { d with
          accesses := d.accesses ++ answerAccesses (a + offset) w (min 56 (total - offset)) }
        (S ++ [readCommand w (a + offset, min 56 (total - offset))])
        (R ++ [readReply d.mem w (a + offset, min 56 (total - offset))]) := by
  set x := a + offset with hx
  set k := min 56 (total - offset) with hk
  have hmod : (a + offset) % 4294967296 = x := Nat.mod_eq_of_lt (by omega)
  obtain ⟨g, hg, htake⟩ := memCmd_ok .memoryRead h.outBuf (a := x) (Nat.sub_pos_of_lt hlt) hdvd
    (by omega)
  rw [← hk] at htake
  have hhead : (readHeadFor x w k).encode.length = 8 := MemReadWriteHead.encode_length _
  have hcount : (readHeadFor x w k).byteCount = k := rfl
  have hat₁ : ({ h with outBuf := g } : Host Link).link.At d S R := hat
  obtain ⟨reply, l, hsend, rfl, hl⟩ := sendAndReceive_answers hat₁ 8 htake hhead
    (usbDataOutCallback_memoryRead d (n := k) (by omega) (dvd_min_payload hdvd) (by omega)) (by
      rintro reply rfl
      rw [List.length_append, hhead, answeredBytes_length]
      omega)
  have hsize : ((readHeadFor x w k).encode ++ answeredBytes d.mem x k).length = 8 + k := by
    rw [List.length_append, hhead, answeredBytes_length]
  set inBuf := h.inBuf.receive ((readHeadFor x w k).encode ++ answeredBytes d.mem x k) with hin
  have hval : inBuf.val = (readHeadFor x w k).encode ++
      (answeredBytes d.mem x k ++ h.inBuf.val.drop (8 + k)) := by
    rw [hin, Frame.receive_val _ (by omega), hsize, List.append_assoc]
  have hcmdHead : readHead MemReadWriteHead.decode g.val = .ok (readHeadFor x w k) :=
    readHead_of_take htake (show k < 65536 by omega) (show x < 4294967296 by omega)
  have hansHead : readHead MemReadWriteHead.decode inBuf.val = .ok (readHeadFor x w k) := by
    rw [hval]
    exact readHead_encode _ _ (show k < 65536 by omega) (show x < 4294967296 by omega)
  have hbytes : readBytes inBuf.val 8 k = .ok (answeredBytes d.mem x k) := by
    unfold readBytes
    rw [hval, List.drop_left' hhead, List.take_left' (answeredBytes_length _ _ _),
      if_pos (by
        rw [List.length_append, List.length_append, hhead, answeredBytes_length]
        omega)]
  have hmin : (if k < total - offset then k else total - offset) = k := by
    split_ifs <;> omega
  refine ⟨⟨g, inBuf, l⟩, ?_, hl⟩
  unfold TargetSTM32F1.memReadRound
  simp only [hmod]
  rw [bind_of_ok (show MakeHead.memReadCmd h.outBuf x w.bytes _ = _ from hg)]
  simp only [Nat.reduceEqDiff, if_false]
  rw [bind_of_ok hsend]
  simp only [hsize, MemReadWriteHead.size]
  rw [if_neg (by omega), bind_of_ok hcmdHead, bind_of_ok hansHead]
  simp only [headsAgree_refl, not_true_eq_false, if_false, hcount, hmin]
  rw [if_neg (by omega), bind_of_ok hbytes]
  rfl

/-- `memRead` has copied the range up to `offset`: the ranges `done` have been answered. -/
structure ReadUpTo (d : Device) (S R : List (List UInt8)) (a : ℕ) (w : AccessWidth)
    (total offset : ℕ) (s : List UInt8 × Host Link) : Prop where
  dvd : w.bytes ∣ total - offset
  read : ∃ done, done ++ cuts 56 (a + offset) (total - offset) = cuts 56 a total ∧
    s.1 = done.flatMap (fun c => answeredBytes d.mem c.1 c.2) ∧
    s.2.link.At (d.readAll w done) (S ++ done.map (readCommand w))
      (R ++ done.map (readReply d.mem w))

theorem ReadUpTo.round {a total offset : ℕ} {w : AccessWidth} {s : List UInt8 × Host Link}
    (h : ReadUpTo d S R a w total offset s) (hlt : offset < total)
    (hwrap : a + total < 4294967296) :
    ∃ n s', TargetSTM32F1.memReadRound firmwareLink a w.bytes total offset s = .ok (n, s') ∧
      n ≠ 0 ∧ offset + n ≤ total ∧ ReadUpTo d S R a w total (offset + n) s' := by
  obtain ⟨done, hcuts, hdata, hat⟩ := h.read
  obtain ⟨h', hround, hat'⟩ := memReadRound_answers hat s.1 hlt h.dvd hwrap
  have hmem : (d.readAll w done).mem = d.mem := rfl
  rw [hmem] at hround hat'
  refine ⟨_, _, hround, by omega, by omega, ?_, ?_⟩
  · rw [← Nat.sub_sub]
    exact Nat.dvd_sub h.dvd (dvd_min_payload h.dvd)
  · refine ⟨done ++ [(a + offset, min 56 (total - offset))], ?_, ?_, ?_⟩
    · rw [← hcuts, cuts_pos (by norm_num) (Nat.sub_pos_of_lt hlt), List.append_assoc,
        List.singleton_append]
      by_cases hle : 56 ≤ total - offset
      · rw [Nat.min_eq_left hle, ← Nat.sub_sub, Nat.add_assoc]
      · have hend : total - (offset + min 56 (total - offset)) = 0 := by omega
        have hlast : total - offset - 56 = 0 := by omega
        rw [hend, hlast, cuts_zero, cuts_zero]
    · rw [List.flatMap_append, ← hdata]
      simp
    · rw [Device.readAll_snoc, List.map_append, List.map_append, List.map_singleton,
        List.map_singleton, ← List.append_assoc, ← List.append_assoc]
      exact hat'

/-- `memRead` of a range of whole elements reads it in packets of 56 bytes. -/
theorem memRead_answers (hat : h.link.At d S R) {a total : ℕ} {w : AccessWidth}
    (hdvd : w.bytes ∣ total) (hwrap : a + total < 4294967296) :
    ∃ h', TargetSTM32F1.memRead firmwareLink a w.bytes (total / w.bytes) h =
        .ok ((cuts 56 a total).flatMap fun c => answeredBytes d.mem c.1 c.2, h') ∧
      h'.link.At (d.readAll w (cuts 56 a total)) (S ++ (cuts 56 a total).map (readCommand w))
        (R ++ (cuts 56 a total).map (readReply d.mem w)) := by
  have helements : total / w.bytes * w.bytes = total := Nat.div_mul_cancel hdvd
  have hpos := w.bytes_pos
  unfold TargetSTM32F1.memRead
  by_cases hzero : total = 0
  · refine ⟨h, ?_, ?_⟩
    · rw [hzero, Nat.zero_div, if_pos (Or.inr rfl), cuts_zero]
      rfl
    · rw [hzero, cuts_zero, Device.readAll_nil]
      simpa using hat
  · have hcount : ¬ (w.bytes = 0 ∨ total / w.bytes = 0) := by
      rintro (h0 | h0)
      · omega
      · rw [h0, Nat.zero_mul] at helements
        omega
    have hstart : ReadUpTo d S R a w total 0 ([], h) := by
      constructor
      · exact hdvd
      · exact ⟨[], rfl, rfl, by simpa using hat⟩
    obtain ⟨s', htransfer, hread⟩ := transfer_complete (ReadUpTo d S R a w total)
      (fun offset s hlt hs => hs.round hlt hwrap) (Nat.zero_le total) hstart
    obtain ⟨done, hcuts, hdata, hat'⟩ := hread.read
    rw [Nat.sub_self, cuts_zero, List.append_nil] at hcuts
    subst hcuts
    refine ⟨s'.2, ?_, hat'⟩
    rw [if_neg hcount, helements, Nat.mod_eq_of_lt (by omega), bind_of_ok htransfer, ← hdata]
    rfl

/-- The command of one round, for a piece of the data. -/
def writeCommand (w : AccessWidth) (t : ℕ × List UInt8) : List UInt8 :=
  (writeHeadFor t.1 w t.2.length).encode ++ t.2

def writeReply (w : AccessWidth) (t : ℕ × List UInt8) : List UInt8 :=
  (writeHeadFor t.1 w t.2.length).encode

/-- The device after it has written the pieces `ts`. -/
def Device.writtenAll (d : Device) (w : AccessWidth) (ts : List (ℕ × List UInt8)) : Device :=
  ts.foldl (fun d t => d.written t.1 w t.2) d

theorem Device.writtenAll_mem (d : Device) (w : AccessWidth) (ts : List (ℕ × List UInt8)) :
    (d.writtenAll w ts).mem = ts.foldl (fun m t => overlay m t.1 t.2) d.mem := by
  induction ts generalizing d with
  | nil => rfl
  | cons t ts ih =>
    have hcons : d.writtenAll w (t :: ts) = (d.written t.1 w t.2).writtenAll w ts := rfl
    rw [hcons, ih, Device.written_mem, List.foldl_cons]

/-- A round of `memWrite` sends the next packet's worth of the data. -/
theorem memWriteRound_answers (hat : h.link.At d S R) {a offset : ℕ} {w : AccessWidth}
    {data : List UInt8} (hlt : offset < data.length) (hdvd : w.bytes ∣ data.length - offset)
    (hwrap : a + data.length < 4294967296)
    (hwritable : Writable d.mem (a + offset) ((data.drop offset).take 56)) :
    ∃ h', TargetSTM32F1.memWriteRound firmwareLink a w.bytes data offset h =
        .ok (min 56 (data.length - offset), h') ∧
      h'.link.At (d.written (a + offset) w ((data.drop offset).take 56))
        (S ++ [writeCommand w (a + offset, (data.drop offset).take 56)])
        (R ++ [writeReply w (a + offset, (data.drop offset).take 56)]) := by
  have hpos := w.bytes_pos
  set x := a + offset with hx
  set bytes := (data.drop offset).take 56 with hbytes
  have hlen : bytes.length = min 56 (data.length - offset) := by
    rw [hbytes, List.length_take, List.length_drop]
  have hmod : (a + offset) % 4294967296 = x := Nat.mod_eq_of_lt (by omega)
  obtain ⟨g, hg, htake⟩ := memCmd_ok .memoryWrite h.outBuf (a := x) (Nat.sub_pos_of_lt hlt) hdvd
    (by omega)
  rw [← hlen] at htake ⊢
  set head := writeHeadFor x w bytes.length with hheadDef
  have htake' : g.val.take 8 = head.encode := htake
  have hhead : head.encode.length = 8 := MemReadWriteHead.encode_length _
  have hcount : head.byteCount = bytes.length := rfl
  have hread : readBytes data offset bytes.length = .ok bytes := by
    unfold readBytes
    rw [if_pos (by omega), hlen, ← List.length_drop, hbytes, ← List.take_eq_take_min]
  have hcmdHead : readHead MemReadWriteHead.decode g.val = .ok head :=
    readHead_of_take htake (show bytes.length < 65536 by omega) (show x < 4294967296 by omega)
  obtain ⟨f, hf, hfval⟩ := g.store_ok 8 bytes (by omega)
  have hftake : f.val.take (8 + bytes.length) = head.encode ++ bytes := by
    have hsize : (head.encode ++ bytes).length = 8 + bytes.length := by
      rw [List.length_append, hhead]
    rw [hfval, htake', List.take_left' hsize]
  have hat₁ : ({ h with outBuf := f } : Host Link).link.At d S R := hat
  obtain ⟨reply, l, hsend, rfl, hl⟩ := sendAndReceive_answers hat₁ (8 + bytes.length) hftake
    (by rw [List.length_append, hhead])
    (usbDataOutCallback_memoryWrite d (by omega)
      (by rw [hlen]; exact dvd_min_payload hdvd) (by omega) hwritable) (by
      rintro reply rfl
      rw [hhead]
      decide)
  set inBuf := h.inBuf.receive head.encode with hin
  have hval : inBuf.val = head.encode ++ h.inBuf.val.drop 8 := by
    rw [hin, Frame.receive_val _ (by omega), hhead]
  have hansHead : readHead MemReadWriteHead.decode inBuf.val = .ok head := by
    rw [hval]
    exact readHead_encode _ _ (show bytes.length < 65536 by omega) (show x < 4294967296 by omega)
  refine ⟨⟨f, inBuf, l⟩, ?_, hl⟩
  unfold TargetSTM32F1.memWriteRound
  simp only [hmod, hpos.ne', if_false]
  rw [bind_of_ok (show MakeHead.memWriteCmd h.outBuf x w.bytes _ = _ from hg)]
  simp only [Nat.reduceEqDiff, if_false]
  rw [bind_of_ok hcmdHead]
  simp only [hcount]
  rw [bind_of_ok hread, bind_of_ok hf, bind_of_ok hsend, bind_of_ok hansHead]
  simp only [headsAgree_refl, not_true_eq_false, if_false, hcount]
  rw [if_neg (by omega), if_neg (by omega)]
  rfl

/-- `memWrite` has sent the data up to `offset`: the pieces `done` have been written, and memory
from there on is as it was. -/
structure WrittenUpTo (d : Device) (S R : List (List UInt8)) (a : ℕ) (w : AccessWidth)
    (data : List UInt8) (offset : ℕ) (h : Host Link) : Prop where
  dvd : w.bytes ∣ data.length - offset
  written : ∃ done, done ++ pieces 56 (a + offset) (data.drop offset) = pieces 56 a data ∧
    (∀ y, a + offset ≤ y → (d.writtenAll w done).mem y = d.mem y) ∧
    h.link.At (d.writtenAll w done) (S ++ done.map (writeCommand w)) (R ++ done.map (writeReply w))

theorem WrittenUpTo.round {a offset : ℕ} {w : AccessWidth} {data : List UInt8}
    (hup : WrittenUpTo d S R a w data offset h) (hlt : offset < data.length)
    (hwrap : a + data.length < 4294967296)
    (hwritable : ∀ t ∈ pieces 56 a data, Writable d.mem t.1 t.2) :
    ∃ n h', TargetSTM32F1.memWriteRound firmwareLink a w.bytes data offset h = .ok (n, h') ∧
      n ≠ 0 ∧ offset + n ≤ data.length ∧ WrittenUpTo d S R a w data (offset + n) h' := by
  obtain ⟨done, hpieces, hahead, hat⟩ := hup.written
  have hne : data.drop offset ≠ [] := by
    apply List.length_pos_iff.mp
    rw [List.length_drop]
    omega
  rw [pieces_cons (by norm_num) _ hne] at hpieces
  set bytes := (data.drop offset).take 56 with hbytes
  have hlen : bytes.length = min 56 (data.length - offset) := by
    rw [hbytes, List.length_take, List.length_drop]
  have hturn : Writable (d.writtenAll w done).mem (a + offset) bytes := by
    intro hflash
    have hmem : (a + offset, bytes) ∈ pieces 56 a data := by
      rw [← hpieces]
      exact List.mem_append_right _ List.mem_cons_self
    obtain ⟨heven, hblank⟩ := hwritable _ hmem hflash
    refine ⟨heven, ?_⟩
    intro y hlo hhi
    rw [hahead y hlo]
    exact hblank y hlo hhi
  obtain ⟨h', hround, hat'⟩ := memWriteRound_answers hat hlt hup.dvd hwrap hturn
  have hsnoc : (d.writtenAll w done).written (a + offset) w bytes =
      d.writtenAll w (done ++ [(a + offset, bytes)]) := by
    simp only [Device.writtenAll, List.foldl_append, List.foldl_cons, List.foldl_nil]
  refine ⟨_, _, hround, by omega, by omega, ?_, ?_⟩
  · rw [← Nat.sub_sub]
    exact Nat.dvd_sub hup.dvd (dvd_min_payload hup.dvd)
  · refine ⟨done ++ [(a + offset, bytes)], ?_, ?_, ?_⟩
    · rw [← hpieces, List.append_assoc, List.singleton_append, ← hlen]
      by_cases hle : 56 ≤ data.length - offset
      · rw [hlen, Nat.min_eq_left hle, List.drop_drop, Nat.add_assoc]
      · have hend : data.drop (offset + bytes.length) = [] := List.drop_eq_nil_of_le (by omega)
        have hlast : (data.drop offset).drop 56 = [] :=
          List.drop_eq_nil_of_le (by rw [List.length_drop]; omega)
        rw [hend, hlast, pieces_nil, pieces_nil]
    · intro y hy
      rw [← hsnoc, Device.written_mem, overlay_above _ _ (by omega)]
      exact hahead y (by omega)
    · rw [← hsnoc, List.map_append, List.map_append, List.map_singleton, List.map_singleton,
        ← List.append_assoc, ← List.append_assoc]
      exact hat'

/-- `memWrite` of whole elements writes the data in packets of 56 bytes. -/
theorem memWrite_answers (hat : h.link.At d S R) {a : ℕ} {w : AccessWidth} {data : List UInt8}
    (hdvd : w.bytes ∣ data.length) (hwrap : a + data.length < 4294967296)
    (hwritable : ∀ t ∈ pieces 56 a data, Writable d.mem t.1 t.2) :
    ∃ h', TargetSTM32F1.memWrite firmwareLink a w.bytes data h = .ok (data.length, h') ∧
      h'.link.At (d.writtenAll w (pieces 56 a data)) (S ++ (pieces 56 a data).map (writeCommand w))
        (R ++ (pieces 56 a data).map (writeReply w)) := by
  unfold TargetSTM32F1.memWrite
  by_cases hzero : data.length = 0
  · obtain rfl := List.length_eq_zero_iff.mp hzero
    refine ⟨h, if_pos hzero, ?_⟩
    rw [pieces_nil]
    simpa [Device.writtenAll] using hat
  · have hstart : WrittenUpTo d S R a w data 0 h := by
      constructor
      · exact hdvd
      · exact ⟨[], rfl, fun y _ => rfl, by simpa [Device.writtenAll] using hat⟩
    obtain ⟨h', htransfer, hup⟩ := transfer_complete (WrittenUpTo d S R a w data)
      (fun offset s hlt hs => hs.round hlt hwrap hwritable) (Nat.zero_le _) hstart
    obtain ⟨done, hpieces, -, hat'⟩ := hup.written
    rw [List.drop_length, pieces_nil, List.append_nil] at hpieces
    subst hpieces
    exact ⟨h', (if_neg hzero).trans htransfer, hat'⟩

/-- The memory that `memWrite` leaves is the old one with the data laid over it. -/
theorem writtenAll_pieces_mem (d : Device) (w : AccessWidth) (a : ℕ) (data : List UInt8) :
    (d.writtenAll w (pieces 56 a data)).mem = overlay d.mem a data := by
  rw [Device.writtenAll_mem]
  exact (tiles_pieces (by norm_num) a data).foldl_overlay d.mem

/-- `flashCmd` against a device that answers: the command is carried out. -/
theorem flashCmd_answers (hat : h.link.At d S R) (command : FlashCommand) {address size : ℕ}
    (ha : address < 4294967296) (hs : size < 4294967296) :
    ∃ reply h', TargetSTM32F1.flashCmd firmwareLink command address size h =
        .ok ((d.flashRequest command address size).1 != 0, h') ∧
      h'.link.At (d.flashRequest command address size).2
        (S ++ [(flashHeadFor command address size).encode]) (R ++ [reply]) := by
  set head := flashHeadFor command address size with hheadDef
  have hhead : head.encode.length = 12 := FlashCmdHead.encode_length _
  obtain ⟨g, hg, hgval⟩ := store_zero_ok h.outBuf head.encode (by rw [hhead]; decide)
  have htake : g.val.take 12 = head.encode := by
    rw [hgval, List.take_left' hhead]
  have hat₁ : ({ h with outBuf := g } : Host Link).link.At d S R := hat
  obtain ⟨reply, l, hsend, ⟨hsize, hreply⟩, hl⟩ := sendAndReceive_answers hat₁ 12 htake hhead
    (usbDataOutCallback_flash d command ha hs) (by
      intro reply hreply
      omega)
  have hcmdHead : readHead FlashCmdHead.decode g.val = .ok head := by
    rw [hgval, readHead, FlashCmdHead.decode_encode head _ ha hs]
  have hansHead : readHead FlashAnsHead.decode (h.inBuf.receive reply).val =
      .ok ⟨DebugCommand.flash.toByte, command.toByte, (d.flashRequest command address size).1⟩ := by
    rw [Frame.receive_val _ (by omega)]
    obtain ⟨b₀, b₁, b₂, b₃, rfl⟩ := List.length_eq_four.mp hsize
    simp only [List.take_succ_cons, List.take_zero, List.cons.injEq, and_true] at hreply
    obtain ⟨rfl, rfl, rfl⟩ := hreply
    rfl
  refine ⟨reply, ⟨g, h.inBuf.receive reply, l⟩, ?_, hl⟩
  unfold TargetSTM32F1.flashCmd
  rw [bind_of_ok (show MakeHead.flashCmd h.outBuf command address size = .ok (12, g) from
    bind_of_ok hg)]
  simp only
  rw [bind_of_ok hsend]
  simp only [hsize, FlashAnsHead.size, lt_irrefl, if_false]
  rw [bind_of_ok hcmdHead, bind_of_ok hansHead]
  have hcmd : head.cmd = DebugCommand.flash.toByte := rfl
  have hcommand : head.flashCommand = command.toByte := rfl
  simp only [hcmd, hcommand, ne_eq, not_true_eq_false, if_false]
  rfl

end BluePill
