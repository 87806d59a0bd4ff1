import BluePill.Host.FirmwareLink
import BluePill.Firmware.MonitorRules

/-! Memory written through the protocol reads back: `memWrite` and `memRead` against the
firmware, for ranges in the RAM of the user program. -/
namespace BluePill
open Lib

/-- The range that the head of a memory packet names. -/
def packetRange (packet : List UInt8) : Option (ℕ × ℕ) :=
  (MemReadWriteHead.decode packet).map fun head => (head.address, head.byteCount)

theorem packetRange_encode (head : MemReadWriteHead) (rest : List UInt8)
    (hn : head.byteCount < 65536) (ha : head.address < 4294967296) :
    packetRange (head.encode ++ rest) = some (head.address, head.byteCount) := by
  rw [packetRange, MemReadWriteHead.decode_encode head rest hn ha]
  rfl

/-- One call of the host between `h` and `h'` has carried `[a, a + n)` over: packets of at most
64 bytes, whose ranges follow each other from `a` to `a + n` in both directions, and accesses at
multiples of their width. -/
structure CarriedOver (h h' : Host Link) (a n : ℕ) : Prop where
  packets : ∃ ps rs cs, h'.link.sent = h.link.sent ++ ps ∧
    h'.link.received = h.link.received ++ rs ∧ (∀ p ∈ ps, p.length ≤ 64) ∧
    (∀ r ∈ rs, r.length ≤ 64) ∧ ps.map packetRange = cs.map some ∧
    rs.map packetRange = cs.map some ∧ Contiguous a cs (a + n)
  aligned : ∃ d d' xs, h.link.device = some d ∧ h'.link.device = some d' ∧
    d'.accesses = d.accesses ++ xs ∧ ∀ x ∈ xs, x.width ∣ x.address

theorem accesses_of_target {d e : Device} (h : d.target = e.target) : d.accesses = e.accesses := by
  have haccesses : d.target.accesses = e.target.accesses := by rw [h]
  exact haccesses

theorem map_packetRange {α : Type} (packet : α → List UInt8) (range : α → ℕ × ℕ) (xs : List α)
    (h : ∀ x ∈ xs, packetRange (packet x) = some (range x)) :
    (xs.map packet).map packetRange = (xs.map range).map some := by
  rw [List.map_map, List.map_map]
  apply List.map_congr_left
  intro x hx
  exact h x hx

/-- A link with a device whose last reply has been collected. -/
theorem Link.at_of_device {l : Link} {d : Device} (hdev : l.device = some d)
    (hfree : d.inEndpoint = none) : l.At d l.sent l.received :=
  ⟨⟨d, hdev, hfree, rfl⟩, rfl, rfl⟩

theorem memRead_carriedOver {h h' : Host Link} {d : Device} {a n : ℕ} {w : AccessWidth}
    (hdev : h.link.device = some d) (hwa : w.bytes ∣ a) (hwrap : a + n < 4294967296)
    (hat : h'.link.At (d.readAll w (cuts 56 a n)) (h.link.sent ++ (cuts 56 a n).map (readCommand w))
      (h.link.received ++ (cuts 56 a n).map (readReply d.mem w))) : CarriedOver h h' a n := by
  obtain ⟨e, he, _, htarget⟩ := hat.device
  have hhead : ∀ c : ℕ × ℕ, (readHeadFor c.1 w c.2).encode.length = 8 := fun c =>
    MemReadWriteHead.encode_length _
  have hrange : ∀ c ∈ cuts 56 a n, ∀ rest,
      packetRange ((readHeadFor c.1 w c.2).encode ++ rest) = some c := by
    intro c hc rest
    have hle := mem_cuts_le hc
    exact packetRange_encode _ rest (show c.2 < 65536 by omega) (show c.1 < 4294967296 by omega)
  constructor
  · refine ⟨_, _, cuts 56 a n, hat.sent, hat.received, ?_, ?_, ?_, ?_, ?_⟩
    · intro p hp
      obtain ⟨c, _, hc⟩ := List.mem_map.mp hp
      rw [← hc, readCommand, hhead]
      decide
    · intro r hr
      obtain ⟨c, hmem, hc⟩ := List.mem_map.mp hr
      have hle := mem_cuts_le hmem
      rw [← hc, readReply, List.length_append, hhead, answeredBytes_length]
      omega
    · rw [map_packetRange (readCommand w) id _ fun c hc => by
        rw [readCommand, ← List.append_nil (readHeadFor c.1 w c.2).encode]
        exact hrange c hc [], List.map_id]
    · rw [map_packetRange (readReply d.mem w) id _ fun c hc => hrange c hc _, List.map_id]
    · exact contiguous_cuts (by norm_num) a n
  · refine ⟨d, e, (cuts 56 a n).flatMap fun c => answerAccesses c.1 w c.2, hdev, he, ?_, ?_⟩
    · rw [accesses_of_target htarget]
      rfl
    · intro x hx
      obtain ⟨c, hc, hxc⟩ := List.mem_flatMap.mp hx
      exact answerAccesses_aligned c.2 (dvd_of_mem_cuts (bytes_dvd_payload w) hwa hc) x hxc

/-- Outside flash every piece is copied element by element. -/
theorem writtenAll_accesses (d : Device) (w : AccessWidth) (ts : List (ℕ × List UInt8))
    (hflash : ∀ t ∈ ts, isFlashRegion t.1 = false) :
    (d.writtenAll w ts).accesses =
      d.accesses ++ ts.flatMap fun t => accessList t.1 w t.2.length := by
  induction ts generalizing d with
  | nil => exact (List.append_nil _).symm
  | cons t ts ih =>
    have hcons : d.writtenAll w (t :: ts) = (d.written t.1 w t.2).writtenAll w ts := rfl
    have hhead : (d.written t.1 w t.2).accesses = d.accesses ++ accessList t.1 w t.2.length := by
      unfold Device.written
      rw [hflash t List.mem_cons_self]
      rfl
    rw [hcons, ih _ fun t' ht' => hflash t' (List.mem_cons_of_mem t ht'), hhead,
      List.flatMap_cons, List.append_assoc]

theorem memWrite_carriedOver {h h' : Host Link} {d : Device} {a : ℕ} {data : List UInt8}
    {w : AccessWidth} (hdev : h.link.device = some d) (hwa : w.bytes ∣ a)
    (hwrap : a + data.length < 4294967296)
    (hflash : ∀ t ∈ pieces 56 a data, isFlashRegion t.1 = false)
    (hat : h'.link.At (d.writtenAll w (pieces 56 a data))
      (h.link.sent ++ (pieces 56 a data).map (writeCommand w))
      (h.link.received ++ (pieces 56 a data).map (writeReply w))) :
    CarriedOver h h' a data.length := by
  obtain ⟨e, he, _, htarget⟩ := hat.device
  have hhead : ∀ t : ℕ × List UInt8, (writeHeadFor t.1 w t.2.length).encode.length = 8 := fun t =>
    MemReadWriteHead.encode_length _
  have hrange : ∀ t ∈ pieces 56 a data, ∀ rest,
      packetRange ((writeHeadFor t.1 w t.2.length).encode ++ rest) = some (t.1, t.2.length) := by
    intro t ht rest
    have hle := mem_cuts_le (mem_spans_of_mem_pieces ht)
    exact packetRange_encode _ rest (show t.2.length < 65536 by omega)
      (show t.1 < 4294967296 by omega)
  constructor
  · refine ⟨_, _, spans (pieces 56 a data), hat.sent, hat.received, ?_, ?_, ?_, ?_, ?_⟩
    · intro p hp
      obtain ⟨t, hmem, ht⟩ := List.mem_map.mp hp
      have hle := mem_cuts_le (mem_spans_of_mem_pieces hmem)
      rw [← ht, writeCommand, List.length_append, hhead]
      omega
    · intro r hr
      obtain ⟨t, _, ht⟩ := List.mem_map.mp hr
      rw [← ht, writeReply, hhead]
      decide
    · exact map_packetRange (writeCommand w) _ _ fun t ht => hrange t ht _
    · refine map_packetRange (writeReply w) _ _ fun t ht => ?_
      rw [writeReply, ← List.append_nil (writeHeadFor t.1 w t.2.length).encode]
      exact hrange t ht []
    · exact (tiles_pieces (by norm_num) a data).contiguous
  · refine ⟨d, e, (pieces 56 a data).flatMap fun t => accessList t.1 w t.2.length, hdev, he,
      ?_, ?_⟩
    · rw [accesses_of_target htarget, writtenAll_accesses d w _ hflash]
    · intro x hx
      obtain ⟨t, ht, hxt⟩ := List.mem_flatMap.mp hx
      exact accessList_aligned t.2.length
        (dvd_of_mem_cuts (bytes_dvd_payload w) hwa (mem_spans_of_mem_pieces ht)) x hxt

/-- The RAM of the user program lies inside one readable region. -/
theorem answeredBytes_userRam (mem : ℕ → UInt8) {a n : ℕ} (hlo : 0x20001000 ≤ a)
    (hhi : a + n ≤ 0x20005000) : answeredBytes mem a n = readRange mem a n := by
  have hregion : InOneRegion a (a + n) := by
    refine ⟨⟨0x20000000, 0x20010000, 0x03⟩, by simp [memoryAccessRegions], ?_, ?_⟩
    · exact (show 0x20000000 ≤ 0x20001000 by decide).trans hlo
    · exact hhi.trans (show 0x20005000 ≤ 0x20010000 by decide)
  rw [answeredBytes, if_pos hregion]

theorem memWrite_memRead (h : Host Link) (d : Device) (hdev : h.link.device = some d)
    (hfree : d.inEndpoint = none) (a : ℕ) (data : List UInt8) (hlo : 0x20001000 ≤ a)
    (hhi : a + data.length ≤ 0x20005000) (w r : AccessWidth) (hwa : w.bytes ∣ a)
    (hwn : w.bytes ∣ data.length) (hra : r.bytes ∣ a) (hrn : r.bytes ∣ data.length) :
    ∃ h₁ d₁, TargetSTM32F1.memWrite firmwareLink a w.bytes data h = .ok (data.length, h₁) ∧
      h₁.link.device = some d₁ ∧ d₁.mem = overlay d.mem a data ∧ CarriedOver h h₁ a data.length ∧
      ∃ h₂, TargetSTM32F1.memRead firmwareLink a r.bytes (data.length / r.bytes) h₁ =
        .ok (data, h₂) ∧ CarriedOver h₁ h₂ a data.length := by
  have hflash : ∀ t ∈ pieces 56 a data, isFlashRegion t.1 = false := by
    intro t ht
    have hle := mem_cuts_le (mem_spans_of_mem_pieces ht)
    rw [isFlashRegion, decide_eq_false_iff_not]
    omega
  obtain ⟨h₁, hwrite, hat₁⟩ := memWrite_answers (Link.at_of_device hdev hfree) hwn (by omega)
    (fun t ht hyes => absurd (hyes.symm.trans (hflash t ht)) Bool.noConfusion)
  obtain ⟨d₁, hdev₁, hfree₁, htarget₁⟩ := hat₁.device
  have hmem₁ : d₁.mem = overlay d.mem a data := by
    rw [mem_of_target htarget₁, writtenAll_pieces_mem]
  obtain ⟨h₂, hread, hat₂⟩ := memRead_answers (a := a) (Link.at_of_device hdev₁ hfree₁) hrn
    (by omega)
  have hdata : ((cuts 56 a data.length).flatMap fun c => answeredBytes d₁.mem c.1 c.2) = data := by
    have hranges : ((cuts 56 a data.length).flatMap fun c => answeredBytes d₁.mem c.1 c.2) =
        (cuts 56 a data.length).flatMap fun c => readRange d₁.mem c.1 c.2 := by
      apply List.flatMap_congr
      intro c hc
      have hle := mem_cuts_le hc
      exact answeredBytes_userRam _ (by omega) (by omega)
    rw [hranges, flatMap_readRange_cuts (by norm_num), hmem₁, readRange_overlay]
  rw [hdata] at hread
  exact ⟨h₁, d₁, hwrite, hdev₁, hmem₁, memWrite_carriedOver hdev hwa (by omega) hflash hat₁,
    h₂, hread, memRead_carriedOver hdev₁ hra (by omega) hat₂⟩

/-- A host with empty buffers, connected to a device after reset. -/
def Host.fresh (mem : ℕ → UInt8) : Host Link :=
  ⟨.zero, .zero, ⟨some (.initial mem bootSymbols), [], []⟩⟩

theorem memWrite_memRead_word :
    ∃ h₁ d₁, TargetSTM32F1.memWrite firmwareLink 0x20001000 2 [1, 2, 3, 4]
        (Host.fresh blankMemory) = .ok (4, h₁) ∧
      h₁.link.device = some d₁ ∧ d₁.mem = overlay blankMemory 0x20001000 [1, 2, 3, 4] ∧
      CarriedOver (Host.fresh blankMemory) h₁ 0x20001000 4 ∧
      ∃ h₂, TargetSTM32F1.memRead firmwareLink 0x20001000 4 1 h₁ = .ok ([1, 2, 3, 4], h₂) ∧
        CarriedOver h₁ h₂ 0x20001000 4 :=
  memWrite_memRead (Host.fresh blankMemory) (.initial blankMemory bootSymbols) rfl rfl 0x20001000
    [1, 2, 3, 4] (by decide) (by decide) .half .word (by decide) (by decide) (by decide) (by decide)

end BluePill
