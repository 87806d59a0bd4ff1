import BluePill.Firmware.CopyCountdown
import BluePill.Firmware.EraseOrder
import BluePill.Firmware.ReplyEcho

/-! What a write packet programs into user flash: the half-words of `flashWrite` against the bytes
of the packet. -/
namespace BluePill
open Lib

/-- The half-word of round `k`: two bytes of the data, also where only one is left. -/
def halfWordEvent (address : ℕ) (data : List UInt8) (k : ℕ) : FlashEvent :=
  .programmed (address + 2 * k) (ofLE [data.getD (2 * k) 0, data.getD (2 * k + 1) 0])

theorem flashWriteLoop_halfWords {address size : ℕ} {data : List UInt8}
    (hfits : size + size % 2 ≤ data.length) (hwrap : address + size < 4294967296) (rounds k : ℕ)
    (hrounds : rounds = (size + 1) / 2 - k) (d : Device) :
    ∃ e, flashWriteLoop address data size (2 * k) d = .ok e ∧
      e.flashLog = d.flashLog ++ (List.range' k rounds).map (halfWordEvent address data) := by
  induction rounds generalizing k d with
  | zero =>
    have hdone : ¬ 2 * k < size := by omega
    rw [flashWriteLoop, if_neg hdone]
    exact ⟨d, rfl, (List.append_nil _).symm⟩
  | succ rounds ih =>
    have hlt : 2 * k < size := by omega
    have hlo : 2 * k < data.length := by omega
    have hhi : 2 * k + 1 < data.length := by omega
    have hvalue : data[2 * k].toNat ||| (data[2 * k + 1].toNat <<< 8) =
        ofLE [data.getD (2 * k) 0, data.getD (2 * k + 1) 0] := by
      rw [or_shiftLeft_eight, List.getD_eq_getElem _ _ hlo, List.getD_eq_getElem _ _ hhi]
    have haddress : (address + 2 * k) % 4294967296 = address + 2 * k := Nat.mod_eq_of_lt (by omega)
    obtain ⟨e, he, hlog⟩ := ih (k + 1) (by omega) (d.flashProgramHalfWord (address + 2 * k)
      (ofLE [data.getD (2 * k) 0, data.getD (2 * k + 1) 0]))
    refine ⟨e, ?_, ?_⟩
    · rw [flashWriteLoop, if_pos hlt, List.getElem?_eq_getElem hlo, List.getElem?_eq_getElem hhi]
      simp only [hvalue, haddress]
      exact he
    · rw [hlog, List.range'_succ, List.map_cons]
      simp [Device.flashProgramHalfWord, halfWordEvent]

theorem flashWrite_halfWords {address size : ℕ} {data : List UInt8}
    (hfits : size + size % 2 ≤ data.length) (hwrap : address + size < 4294967296) (d : Device) :
    ∃ e, flashWrite address data size d = .ok e ∧
      e.flashLog =
        d.flashLog ++ (List.range ((size + 1) / 2)).map (halfWordEvent address data) := by
  have hloop := flashWriteLoop_halfWords hfits hwrap ((size + 1) / 2) 0 rfl d
  rwa [← List.range_eq_range'] at hloop

/-- The bytes that programming puts into flash, each with its address. -/
def programmedBytes (log : List FlashEvent) : List (ℕ × UInt8) :=
  log.flatMap fun
    | .programmed address data =>
      [(address, UInt8.ofNat data), (address + 1, UInt8.ofNat (data / 256))]
    | _ => []

theorem programmedBytes_append (xs ys : List FlashEvent) :
    programmedBytes (xs ++ ys) = programmedBytes xs ++ programmedBytes ys := List.flatMap_append

theorem programmedBytes_halfWordEvent (address : ℕ) (data : List UInt8) (k : ℕ) :
    programmedBytes [halfWordEvent address data k] =
      [(address + 2 * k, data.getD (2 * k) 0),
        (address + (2 * k + 1), data.getD (2 * k + 1) 0)] := by
  have hbytes := toLE_ofLE [data.getD (2 * k) 0, data.getD (2 * k + 1) 0]
  obtain ⟨hlo, hhi⟩ := List.cons.inj hbytes
  have hhi := (List.cons.inj hhi).1
  simp only [programmedBytes, halfWordEvent, List.flatMap_cons, List.flatMap_nil, List.append_nil,
    hlo, hhi, Nat.add_assoc]

/-- Rounds program their data byte by byte, from the address on. -/
theorem programmedBytes_halfWords (address : ℕ) (data : List UInt8) (rounds : ℕ) :
    programmedBytes ((List.range rounds).map (halfWordEvent address data)) =
      (List.range (2 * rounds)).map fun i => (address + i, data.getD i 0) := by
  induction rounds with
  | zero => rfl
  | succ rounds ih =>
    have hdouble : 2 * (rounds + 1) = 2 * rounds + 1 + 1 := by omega
    rw [List.range_succ, List.map_append, programmedBytes_append, ih, List.map_singleton,
      programmedBytes_halfWordEvent, hdouble, List.range_succ, List.range_succ]
    simp

/-- The flash controller takes whole half-words of user flash. A store to an odd address is split
by the core and refused by the controller. -/
def IsFlashHalfWord (address : ℕ) : Prop :=
  address % 2 = 0 ∧ 0x08004000 ≤ address ∧ address + 2 ≤ 0x08020000

/-- The handler programs the bytes of the packet behind its head, as many as its reply tells, to
`address` and behind, in half-words of user flash; and nothing else. -/
def ProgramsPayload (packet : List UInt8) (address : ℕ) (d : Device) (r : ℕ × Frame × Device) :
    Prop :=
  ∃ log ans, r.2.2.flashLog = d.flashLog ++ log ∧ MemReadWriteHead.decode r.2.1.val = some ans ∧
    (∀ e ∈ log, ∃ a data, e = .programmed a data ∧ IsFlashHalfWord a) ∧
    (programmedBytes log).map (fun x => (x.1, some x.2)) =
      (List.range ans.byteCount).map fun i => (address + i, packet[MemReadWriteHead.size + i]?)

/-- The payload that the head asks for and the packet has room for, in whole elements of the
validated align. -/
def payloadLength (head : MemReadWriteHead) (length : ℕ) : ℕ :=
  min (length - MemReadWriteHead.size) head.byteCount / getValidatedAlign head.align.toNat *
    getValidatedAlign head.align.toNat

/-- There is no payload, or it is made of half-words that lie in flash from an even address on. -/
def WholeHalfWords (head : MemReadWriteHead) (length : ℕ) : Prop :=
  payloadLength head length = 0 ∨
    head.address % 2 = 0 ∧ payloadLength head length % 2 = 0 ∧
      head.address + payloadLength head length ≤ 0x08020000

theorem writePayload_eq (head : MemReadWriteHead) {length : ℕ} (h : MemReadWriteHead.size ≤ length)
    (hmax : length ≤ 64) : writePayload head length = payloadLength head length := by
  have halign := head.align.toNat_lt
  have hvalid : getValidatedAlign (getValidatedAlign head.align.toNat) =
      getValidatedAlign head.align.toNat := by
    rcases getValidatedAlign_cases halign with hzero | ⟨k, hk, hpow⟩
    · rw [hzero]
      rfl
    · rw [hpow]
      interval_cases k <;> rfl
  have hsmall : getValidatedAlign head.align.toNat < 256 := by
    rcases getValidatedAlign_cases halign with hzero | ⟨k, hk, hpow⟩
    · omega
    · rw [hpow]
      interval_cases k <;> decide
  rw [writePayload, payloadSize_rounded _ h (by omega) hsmall, hvalid]
  rfl

theorem payloadLength_le (head : MemReadWriteHead) (length : ℕ) :
    payloadLength head length ≤ length - MemReadWriteHead.size :=
  (Nat.div_mul_le_self _ _).trans (min_le_left _ _)

/-- What a write packet for flash comes to. -/
theorem memoryWriteCommand_flash (f outBuf : Frame) (d : Device) {packet : List UInt8}
    {head : MemReadWriteHead} (hdecode : MemReadWriteHead.decode packet = some head)
    (hsize : MemReadWriteHead.size ≤ packet.length)
    (hcmd : head.cmd = DebugCommand.memoryWrite.toByte)
    (hlen : packet.length ≤ 64) (hflash : isFlashRegion head.address = true) :
    ∃ r : ℕ × Frame × Device, ∃ ans,
      memoryWriteCommand (f.receive packet).val packet.length outBuf 64 d = .ok r ∧
      MemReadWriteHead.decode r.2.1.val = some ans ∧
      ans.byteCount = payloadLength head packet.length ∧
      r.2.2.flashLog = d.flashLog ++
        (List.range ((payloadLength head packet.length + 1) / 2)).map
          (halfWordEvent head.address ((f.receive packet).val.drop MemReadWriteHead.size)) := by
  have hval := f.receive_val hlen
  have hframe : (f.receive packet).val.length = 64 := (f.receive packet).property
  have hdecode' : MemReadWriteHead.decode (f.receive packet).val = some head := by
    rw [hval, MemReadWriteHead.decode_append _ hsize, hdecode]
  have hread : readHead MemReadWriteHead.decode (f.receive packet).val = .ok head := by
    rw [readHead, hdecode']
  have hcommand : commandOf (f.receive packet).val = some .memoryWrite := by
    obtain ⟨n₀, n₁, tail, hbuf⟩ := MemReadWriteHead.eq_of_decode hdecode'
    rw [hbuf, hcmd]
    exact DebugCommand.ofByte_toByte .memoryWrite
  have haddress : head.address < 0x08020000 := (of_decide_eq_true hflash).2
  have hle := payloadLength_le head packet.length
  have hsize' : 8 ≤ packet.length := hsize
  set n := payloadLength head packet.length with hn
  have hpayload : writePayload head packet.length = n := writePayload_eq head hsize hlen
  have hroom : n ≤ packet.length - 8 := hle
  have hfits : n + n % 2 ≤ ((f.receive packet).val.drop MemReadWriteHead.size).length := by
    rw [List.length_drop, hframe]
    show _ ≤ 64 - 8
    omega
  have hwrap : head.address + n < 4294967296 := by omega
  obtain ⟨e, he, hlog⟩ := flashWrite_halfWords hfits hwrap d
  have hwrite : writeToTarget head (f.receive packet).val n d = .ok e := by
    rw [writeToTarget, if_pos hflash]
    exact he
  set ans := MemReadWriteHead.mk DebugCommand.memoryWrite.toByte
    (UInt8.ofNat (getValidatedAlign head.align.toNat)) n head.address with hans
  obtain ⟨g, hg, hgval⟩ := store_zero_ok outBuf ans.encode (by
    rw [MemReadWriteHead.encode_length]
    decide)
  refine ⟨(MemReadWriteHead.size, g, e), ans, ?_, ?_, rfl, hlog⟩
  · rw [memoryWriteCommand_eq outBuf d hcommand hsize hread, hpayload, bind_of_ok hwrite,
      bind_of_ok hg]
    rfl
  · have hcount : ans.byteCount < 65536 := show n < 65536 by omega
    have haddr : ans.address < 4294967296 := show head.address < 4294967296 by omega
    show MemReadWriteHead.decode g.val = some ans
    rw [hgval, MemReadWriteHead.decode_encode ans _ hcount haddr]

/-- Behind the head the buffer holds the packet, as far as it goes. -/
theorem receive_payload (f : Frame) {packet : List UInt8} (hlen : packet.length ≤ 64) {i : ℕ}
    (hi : MemReadWriteHead.size + i < packet.length) :
    some (((f.receive packet).val.drop MemReadWriteHead.size).getD i 0) =
      packet[MemReadWriteHead.size + i]? := by
  have hin : MemReadWriteHead.size + i < (f.receive packet).val.length := by
    rw [(f.receive packet).property]
    omega
  have hdrop : i < ((f.receive packet).val.drop MemReadWriteHead.size).length := by
    rw [List.length_drop]
    omega
  rw [List.getD_eq_getElem _ _ hdrop, List.getElem_drop, ← List.getElem?_eq_getElem hin,
    f.receive_val hlen, List.getElem?_append_left hi]

theorem mem_halfWords {address rounds k : ℕ} (data : List UInt8) (h : k < rounds) :
    halfWordEvent address data k ∈ (List.range rounds).map (halfWordEvent address data) :=
  List.mem_map.mpr ⟨k, List.mem_range.mpr h, rfl⟩

/-- Half-words of user flash end where the payload ends exactly for a whole payload. -/
theorem programsPayload_iff {packet : List UInt8} {head : MemReadWriteHead} (f : Frame) (d : Device)
    {r : ℕ × Frame × Device} {ans : MemReadWriteHead} (hlen : packet.length ≤ 64)
    (hsize : MemReadWriteHead.size ≤ packet.length) (hflash : isFlashRegion head.address = true)
    (hans : MemReadWriteHead.decode r.2.1.val = some ans)
    (hcount : ans.byteCount = payloadLength head packet.length)
    (hlog : r.2.2.flashLog = d.flashLog ++
      (List.range ((payloadLength head packet.length + 1) / 2)).map
        (halfWordEvent head.address ((f.receive packet).val.drop MemReadWriteHead.size))) :
    ProgramsPayload packet head.address d r ↔ WholeHalfWords head packet.length := by
  have hle := payloadLength_le head packet.length
  have hlow : 0x08004000 ≤ head.address := (of_decide_eq_true hflash).1
  unfold WholeHalfWords
  set n := payloadLength head packet.length
  set data := (f.receive packet).val.drop MemReadWriteHead.size with hdata
  constructor
  · rintro ⟨log, ans', hlog', hans', hinside, hexact⟩
    have hlogs := List.append_cancel_left (hlog.symm.trans hlog')
    have hcounts : ans'.byteCount = n := by
      rw [← hcount, Option.some.inj (hans'.symm.trans hans)]
    rw [← hlogs] at hinside hexact
    have heven : 2 * ((n + 1) / 2) = n := by
      rw [programmedBytes_halfWords, hcounts] at hexact
      simpa using congrArg List.length hexact
    by_cases hzero : n = 0
    · exact .inl hzero
    · right
      obtain ⟨a, v, hfirst, hin⟩ := hinside _ (mem_halfWords (k := 0) data (by omega))
      obtain ⟨b, u, hlast, hin'⟩ := hinside _ (mem_halfWords (k := (n + 1) / 2 - 1) data (by omega))
      obtain rfl : head.address + 2 * 0 = a := (FlashEvent.programmed.inj hfirst).1
      obtain rfl : head.address + 2 * ((n + 1) / 2 - 1) = b := (FlashEvent.programmed.inj hlast).1
      unfold IsFlashHalfWord at hin hin'
      omega
  · intro hwhole
    refine ⟨_, ans, hlog, hans, ?_, ?_⟩
    · intro e he
      obtain ⟨k, hk, rfl⟩ := List.mem_map.mp he
      have hk := List.mem_range.mp hk
      refine ⟨_, _, rfl, ?_⟩
      unfold IsFlashHalfWord
      omega
    · have heven : 2 * ((n + 1) / 2) = n := by omega
      rw [programmedBytes_halfWords, heven, hcount, List.map_map]
      apply List.map_congr_left
      intro i hi
      have hi := List.mem_range.mp hi
      have hin : MemReadWriteHead.size + i < packet.length := by omega
      exact congrArg (Prod.mk _) (receive_payload f hlen hin)

/-- A write packet for user flash is carried out, whatever the buffers held before; it programs
its payload and nothing else exactly when the payload is made of half-words of flash. -/
theorem memoryWriteCommand_programs_iff (f outBuf : Frame) (d : Device) {packet : List UInt8}
    {head : MemReadWriteHead} (hdecode : MemReadWriteHead.decode packet = some head)
    (hcmd : head.cmd = DebugCommand.memoryWrite.toByte) (hlen : packet.length ≤ 64)
    (hflash : isFlashRegion head.address = true) :
    ∃ r, memoryWriteCommand (f.receive packet).val packet.length outBuf 64 d = .ok r ∧
      (ProgramsPayload packet head.address d r ↔ WholeHalfWords head packet.length) := by
  have hsize : MemReadWriteHead.size ≤ packet.length := by
    obtain ⟨n₀, n₁, tail, rfl⟩ := MemReadWriteHead.eq_of_decode hdecode
    exact Nat.le_add_left 8 _
  obtain ⟨r, ans, hr, hans, hcount, hlog⟩ :=
    memoryWriteCommand_flash f outBuf d hdecode hsize hcmd hlen hflash
  exact ⟨r, hr, programsPayload_iff f d hlen hsize hflash hans hcount hlog⟩

/-- Two bytes for the first half-word of user flash. -/
theorem memoryWriteCommand_programs_iff_word :
    ∃ r, memoryWriteCommand (Frame.zero.receive writeWordPacket).val writeWordPacket.length .zero 64
        (Device.initial blankMemory bootSymbols) = .ok r ∧
      ProgramsPayload writeWordPacket 0x08004000 (Device.initial blankMemory bootSymbols) r := by
  have hdecode : MemReadWriteHead.decode writeWordPacket = some ⟨1, 2, 2, 0x08004000⟩ := by decide
  obtain ⟨r, hr, hprograms⟩ := memoryWriteCommand_programs_iff .zero .zero
    (Device.initial blankMemory bootSymbols) hdecode (by decide) (by decide) (by decide)
  exact ⟨r, hr, hprograms.mpr (.inr (by decide))⟩

/-- A packet for one byte of flash. -/
def writeBytePacket : List UInt8 := MemReadWriteHead.encode ⟨1, 1, 1, 0x08004000⟩ ++ [0x34]

/-- One byte is programmed as a half-word, with a byte of an earlier packet behind it. -/
theorem memoryWriteCommand_programs_stale :
    ∃ r, memoryWriteCommand (Frame.zero.receive writeBytePacket).val writeBytePacket.length .zero 64
        (Device.initial blankMemory bootSymbols) = .ok r ∧
      ¬ ProgramsPayload writeBytePacket 0x08004000 (Device.initial blankMemory bootSymbols) r := by
  have hdecode : MemReadWriteHead.decode writeBytePacket = some ⟨1, 1, 1, 0x08004000⟩ := by decide
  obtain ⟨r, ans, hr, hans, hcount, hlog⟩ := memoryWriteCommand_flash .zero .zero
    (Device.initial blankMemory bootSymbols) hdecode (by decide) (by decide) (by decide) (by decide)
  refine ⟨r, hr, ?_⟩
  rw [programsPayload_iff .zero _ (by decide) (by decide) (by decide) hans hcount hlog]
  unfold WholeHalfWords
  decide

end BluePill
